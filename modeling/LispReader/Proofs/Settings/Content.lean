import LispReader.Proofs.Json.Flat
import LispReader.Proofs.Lexeme.Oversize
import LispReader.Proofs.Record.Typed
import LispReader.Proofs.Settings.Load
import LispReader.Proofs.Value.Entries

/-!
What a settings file says. Its text has to hold an association list and nothing else, or no form at
all. Of entries with the same key the last one counts, and only the last ones under the known keys
have to be of a certain kind; what stands under any other key is kept as it is.
-/

namespace LispReader

open Lexeme

/-- The only whole numbers that a form, or a form that a cell in it holds, has for its value are
those of 64 bits. -/
def Form.HoldsWords : Form → Prop
  | .cons head tail => HoldsWords head ∧ HoldsWords tail
  | form => ∀ n, form.settingValue = .ok (.int n) → IsWord n

namespace Form

theorem keptByCells_holdsWords : KeptByCells HoldsWords where
  emptyList n hValue := by cases hValue
  cons _ _ hHead hTail := ⟨hHead, hTail⟩

theorem settingValue_symbol (name : String) :
    Token.settingValue (.symbol (.text name)) =
      .ok (if name = "t" then .bool true else .text name) := by
  split
  · next hName => rw [hName, Token.settingValue]
  · next hName =>
      rw [Token.settingValue]
      simpa using hName

/-- A cell has a list for its value, if it has any. -/
theorem exists_list_of_settingValue_cons {head tail : Form} {value : Value}
    (h : Token.settingValue (.cons head tail) = .ok value) : ∃ items, value = .list items := by
  rw [Token.settingValue] at h
  split at h
  · cases hHead : head.settingValue <;> cases hTail : tail.settingValues <;>
      simp [hHead, hTail, bind, Except.bind, pure, Except.pure] at h
    exact ⟨_, h.symm⟩
  · cases h

theorem HoldsWords.of_sound {form : Form} (h : Sound form) : HoldsWords form := by
  induction h with
  | integer least greatest =>
      intro n hValue
      cases hValue
      exact ⟨least, greatest⟩
  | cons _ _ ihHead ihTail => exact ⟨ihHead, ihTail⟩
  | @symbol text _ =>
      intro n hValue
      rw [settingValue_symbol] at hValue
      split at hValue <;> cases hValue
  | _ =>
      intro n hValue
      cases hValue

theorem HoldsWords.isWord {form : Form} (h : HoldsWords form) {n : Int}
    (hValue : form.settingValue = .ok (.int n)) : IsWord n := by
  cases form with
  | cons head tail =>
      obtain ⟨items, hItems⟩ := exists_list_of_settingValue_cons hValue
      cases hItems
  | _ => exact h n hValue

theorem HoldsWords.heads {form : Form} (h : HoldsWords form) :
    ∀ item ∈ form.heads, HoldsWords item := by
  induction form with
  | cons head tail _ ih => exact List.forall_mem_cons.mpr ⟨h.1, ih h.2⟩
  | _ => exact List.forall_mem_nil _

/-- The forms of a text hold no other numbers. -/
theorem holdsWords_of_readText {text : List Char} {keepComments : Bool} {maxDepth : Int}
    {forms : List Form} (hRead : readText text keepComments maxDepth = .ok forms) :
    ∀ form ∈ forms, HoldsWords form := by
  refine forall_of_readText keptByCells_holdsWords (fun lexeme hLexeme token hToken => ?_) hRead
  have hLone := loneMark_of_mem_lexemes hLexeme
  refine (admissible_of_classify hLone hToken).holdsOfToken (fun form => .of_sound)
    fun hComment => ?_
  obtain ⟨depth, words, -, rfl⟩ := exists_of_isComment hLone hToken hComment
  intro n hValue
  cases hValue

end Form

namespace Settings

/-- A form is an entry: a symbol, and behind it a value. -/
def IsEntry (form : Form) (entry : String × Value) : Prop :=
  ∃ tail, form = .cons (.symbol (.text entry.1)) tail ∧ tail.settingValue = .ok entry.2

/-- The entries that the forms of a settings file list. There may be no form; otherwise there is
one, and it is a proper list of entries. -/
inductive Lists : List Form → List (String × Value) → Prop where
  | nothing : Lists [] []
  | list {form : Form} {entries : List (String × Value)} (proper : form.isProperList = true)
      (items : List.Forall₂ IsEntry form.heads entries) : Lists [form] entries

/-- What stands last under the known keys, if anything does, is a truth value and a positive
number. -/
structure Fit (entries : List (String × Value)) : Prop where
  keepComments : ∀ value, Entries.last? entries keepCommentsKey = some value →
    ∃ flag, value = .bool flag
  maxDepth : ∀ value, Entries.last? entries maxDepthKey = some value →
    ∃ n, value = .int n ∧ 1 ≤ n

/-- Settings are those that entries say. -/
structure Says (settings : Settings) (path : AbsolutePath) (entries : List (String × Value)) :
    Prop where
  keepComments : (Entries.last? entries keepCommentsKey).getD (.bool false) =
    .bool settings.keepComments
  maxDepth : (Entries.last? entries maxDepthKey).getD (.int 256) = .int settings.maxDepth
  range : 1 ≤ settings.maxDepth ∧ settings.maxDepth ≤ 2 ^ 63 - 1
  path : settings.path = some path
  keys : settings.entries.map Prod.fst = (entries.map Prod.fst).eraseDups
  values : ∀ entry ∈ settings.entries, Entries.last? entries entry.1 = some entry.2
  unknown_sorted : settings.unknownKeys.Pairwise (· < ·)
  mem_unknown_iff : ∀ key, key ∈ settings.unknownKeys ↔
    key ∈ entries.map Prod.fst ∧ key ≠ keepCommentsKey ∧ key ≠ maxDepthKey

theorem entryOfForm_eq_ok_iff {path : String} {form : Form} {entry : String × Value} :
    entryOfForm path form = .ok entry ↔ IsEntry form entry := by
  obtain ⟨key, value⟩ := entry
  unfold IsEntry
  constructor
  · intro h
    unfold entryOfForm at h
    split at h
    · next key tail =>
        cases hValue : tail.settingValue with
        | error fault =>
            rw [hValue] at h
            cases h
        | ok found =>
            rw [hValue] at h
            cases h
            exact ⟨tail, rfl, hValue⟩
    · cases h
  · rintro ⟨tail, rfl, hValue⟩
    simp only [entryOfForm, hValue]

theorem readKeepComments_eq_ok_iff {entries : List (String × Value)} {flag : Bool} :
    readKeepComments entries = .ok flag ↔
      (Entries.get? entries keepCommentsKey).getD (.bool false) = .bool flag := by
  unfold readKeepComments
  cases Entries.get? entries keepCommentsKey with
  | none => simp
  | some value => cases value <;> simp

theorem readMaxDepth_eq_ok_iff {entries : List (String × Value)} {n : Int} :
    readMaxDepth entries = .ok n ↔
      (Entries.get? entries maxDepthKey).getD (.int 256) = .int n ∧ 1 ≤ n := by
  unfold readMaxDepth
  cases Entries.get? entries maxDepthKey with
  | none =>
      simp only [Reader.defaultMaxDepth, Except.ok.injEq, Option.getD_none, Value.int.injEq]
      omega
  | some value =>
      cases value with
      | int value =>
          simp only [Option.getD_some, Value.int.injEq]
          split
          · simp only [reduceCtorEq, false_iff, not_and]
            omega
          · simp only [Except.ok.injEq]
            omega
      | _ => simp

/-- Entries make settings if both known keys have values of their kind. -/
theorem ofEntries_eq_ok_iff {path : AbsolutePath} {entries : List (String × Value)}
    {settings : Settings} :
    ofEntries path entries = .ok settings ↔
      readKeepComments entries = .ok settings.keepComments ∧
        readMaxDepth entries = .ok settings.maxDepth ∧ settings.path = some path ∧
        settings.entries = entries := by
  unfold ofEntries
  cases hKeep : readKeepComments entries with
  | error fault => simp [bind, Except.bind]
  | ok keepComments =>
      cases hDepth : readMaxDepth entries with
      | error fault => simp [bind, Except.bind]
      | ok maxDepth =>
          simp only [bind, Except.bind, pure, Except.pure, Except.ok.injEq]
          constructor
          · rintro rfl
            exact ⟨rfl, rfl, rfl, rfl⟩
          · obtain ⟨_, _, _, _⟩ := settings
            rintro ⟨rfl, rfl, rfl, rfl⟩
            rfl

theorem forall₂_isEntry_iff (path : String) {forms : List Form}
    {entries : List (String × Value)} :
    List.Forall₂ IsEntry forms entries ↔ forms.mapM (entryOfForm path) = .ok entries := by
  rw [Json.mapM_eq_ok_iff_forall₂]
  simp only [entryOfForm_eq_ok_iff]

theorem entriesOfForm_eq_ok_iff {path : String} {form : Form} {kept : List (String × Value)} :
    entriesOfForm path form = .ok kept ↔
      ∃ entries, form.isProperList = true ∧ List.Forall₂ IsEntry form.heads entries ∧
        kept = Entries.ofList entries := by
  simp only [forall₂_isEntry_iff path]
  unfold entriesOfForm
  split
  · next hProper =>
      cases form.heads.mapM (entryOfForm path) with
      | error fault => simp [hProper, Functor.map, Except.map]
      | ok entries => simp [hProper, Functor.map, Except.map, eq_comm]
  · next hImproper => simp [hImproper]

/-- The text of a settings file is accepted if its forms list entries that make settings. -/
theorem ofText_eq_ok_iff {path : AbsolutePath} {text : List Char} {settings : Settings} :
    ofText path text = .ok settings ↔
      ∃ forms entries, readText text = .ok forms ∧ Lists forms entries ∧
        ofEntries path (Entries.ofList entries) = .ok settings := by
  unfold ofText
  cases readText text with
  | error error => simp
  | ok forms =>
      simp only [Except.ok.injEq, exists_and_left, exists_eq_left']
      rcases forms with _ | ⟨form, _ | ⟨second, others⟩⟩
      · constructor
        · rintro ⟨⟩
          exact ⟨[], .nothing, rfl⟩
        · rintro ⟨entries, ⟨⟩, hEntries⟩
          exact hEntries
      · dsimp only
        constructor
        · intro h
          cases hKept : entriesOfForm path.toString form with
          | error fault =>
              rw [hKept] at h
              cases h
          | ok kept =>
              rw [hKept] at h
              obtain ⟨entries, hProper, hItems, rfl⟩ := entriesOfForm_eq_ok_iff.mp hKept
              exact ⟨entries, .list hProper hItems, h⟩
        · rintro ⟨entries, hLists, hEntries⟩
          cases hLists with
          | list hProper hItems =>
              have hKept : entriesOfForm path.toString form = .ok (Entries.ofList entries) :=
                entriesOfForm_eq_ok_iff.mpr ⟨entries, hProper, hItems, rfl⟩
              rw [hKept]
              exact hEntries
      · simp only [reduceCtorEq, false_iff, not_exists, not_and]
        rintro entries ⟨⟩

/-- Forms list their entries in one way. -/
theorem Lists.unique {forms : List Form} {entries others : List (String × Value)}
    (h : Lists forms entries) (hOthers : Lists forms others) : entries = others := by
  cases h with
  | nothing =>
      cases hOthers
      rfl
  | list _ hItems =>
      cases hOthers with
      | list _ hItems' =>
          rw [forall₂_isEntry_iff ""] at hItems hItems'
          exact Except.ok.inj (hItems.symm.trans hItems')

/-- A value that counts stands in an entry of a form. -/
theorem Lists.exists_isEntry {forms : List Form} {entries : List (String × Value)} {key : String}
    {value : Value} (h : Lists forms entries) (hLast : Entries.last? entries key = some value) :
    ∃ form ∈ forms, ∃ item ∈ form.heads, IsEntry item (key, value) := by
  have hMem := Entries.mem_of_last? hLast
  cases h with
  | nothing => cases hMem
  | @list form _ _ hItems =>
      rw [forall₂_isEntry_iff ""] at hItems
      obtain ⟨item, hItem, hEntry⟩ := Json.exists_of_mem_mapM hItems hMem
      exact ⟨form, List.mem_singleton_self form, item, hItem, entryOfForm_eq_ok_iff.mp hEntry⟩

/-- A number that counts is one of 64 bits. -/
theorem isWord_of_last? {text : List Char} {forms : List Form} {entries : List (String × Value)}
    {key : String} {n : Int} (hRead : readText text = .ok forms) (hLists : Lists forms entries)
    (hLast : Entries.last? entries key = some (.int n)) : IsWord n := by
  obtain ⟨form, hForm, item, hItem, tail, rfl, hValue⟩ := hLists.exists_isEntry hLast
  have hCell := (Form.holdsWords_of_readText hRead form hForm).heads _ hItem
  exact hCell.2.isWord hValue

/-- Unknown keys are sorted, and none comes twice if no key does. -/
theorem pairwise_unknownKeys {settings : Settings}
    (hNodup : (settings.entries.map Prod.fst).Nodup) :
    settings.unknownKeys.Pairwise (· < ·) := by
  unfold unknownKeys
  generalize hKnown : (settings.entries.map Prod.fst).filter _ = unknown
  have hUnknown : (unknown.mergeSort fun a b => a ≤ b).Nodup := by
    rw [(List.mergeSort_perm unknown _).nodup_iff, ← hKnown]
    exact hNodup.filter _
  have hSorted : (unknown.mergeSort fun a b => a ≤ b).Pairwise fun a b => decide (a ≤ b) = true :=
    List.pairwise_mergeSort (by simpa using fun a b c => String.le_trans)
      (by simpa using String.le_total) unknown
  refine (hSorted.and hUnknown).imp fun {a b} h => ?_
  exact String.not_le.mp fun hBelow => h.2 (String.le_antisymm (of_decide_eq_true h.1) hBelow)

theorem mem_unknownKeys {settings : Settings} {key : String} :
    key ∈ settings.unknownKeys ↔
      key ∈ settings.entries.map Prod.fst ∧ key ≠ keepCommentsKey ∧ key ≠ maxDepthKey := by
  simp only [unknownKeys, List.mem_mergeSort, List.mem_filter, Bool.and_eq_true, bne_iff_ne]

/-- Settings that are made of entries are those that the entries say. -/
theorem says_of_ofEntries {path : AbsolutePath} {entries : List (String × Value)}
    {settings : Settings} (h : ofEntries path (Entries.ofList entries) = .ok settings)
    (hWord : ∀ n, Entries.last? entries maxDepthKey = some (.int n) → IsWord n) :
    settings.Says path entries := by
  obtain ⟨hKeep, hDepth, hPath, hEntries⟩ := ofEntries_eq_ok_iff.mp h
  rw [readKeepComments_eq_ok_iff, Entries.get?_ofList] at hKeep
  rw [readMaxDepth_eq_ok_iff, Entries.get?_ofList] at hDepth
  obtain ⟨hDepth, hPositive⟩ := hDepth
  have hKeys : settings.entries.map Prod.fst = (entries.map Prod.fst).eraseDups :=
    hEntries ▸ Entries.map_fst_ofList entries
  refine ⟨hKeep, hDepth, ⟨hPositive, ?_⟩, hPath, hKeys, ?_, ?_, ?_⟩
  · cases hLast : Entries.last? entries maxDepthKey with
    | none =>
        rw [hLast, Option.getD_none, Value.int.injEq] at hDepth
        omega
    | some value =>
        rw [hLast, Option.getD_some] at hDepth
        exact (hWord _ (hLast.trans (congrArg some hDepth))).2
  · intro entry hEntry
    rw [← Entries.get?_ofList]
    exact Entries.get?_of_mem (Entries.nodup_ofList entries) (hEntries ▸ hEntry)
  · exact pairwise_unknownKeys (hEntries ▸ Entries.nodup_ofList entries)
  · intro key
    rw [mem_unknownKeys, hKeys, List.mem_eraseDups]

/-- Entries make settings if the values that count are fit for it. -/
theorem exists_ofEntries_iff {path : AbsolutePath} {entries : List (String × Value)} :
    (∃ settings, ofEntries path (Entries.ofList entries) = .ok settings) ↔ Fit entries := by
  simp only [ofEntries_eq_ok_iff, readKeepComments_eq_ok_iff, readMaxDepth_eq_ok_iff,
    Entries.get?_ofList]
  constructor
  · rintro ⟨settings, hKeep, ⟨hDepth, hPositive⟩, -⟩
    refine ⟨fun value hLast => ?_, fun value hLast => ?_⟩
    · rw [hLast] at hKeep
      exact ⟨_, hKeep⟩
    · rw [hLast] at hDepth
      exact ⟨_, hDepth, hPositive⟩
  · intro hFit
    have hKeep : ∃ flag, (Entries.last? entries keepCommentsKey).getD (.bool false) =
        .bool flag := by
      cases hLast : Entries.last? entries keepCommentsKey with
      | none => exact ⟨false, rfl⟩
      | some value => exact hFit.keepComments value hLast
    have hDepth : ∃ n, (Entries.last? entries maxDepthKey).getD (.int 256) = .int n ∧ 1 ≤ n := by
      cases hLast : Entries.last? entries maxDepthKey with
      | none => exact ⟨256, rfl, by decide⟩
      | some value => exact hFit.maxDepth value hLast
    obtain ⟨flag, hFlag⟩ := hKeep
    obtain ⟨n, hNumber⟩ := hDepth
    exact ⟨⟨flag, n, some path, Entries.ofList entries⟩, hFlag, hNumber, rfl, rfl⟩

end Settings

/-- A fault lies in what a settings file says, not in there being no such file or no text in it. -/
def SettingsFault.InText : SettingsFault → Prop
  | .file _ _ | .encoding _ => False
  | _ => True

namespace Settings

/-- Whatever an outcome fails with, it lies in the text. -/
def FailsInText {α : Type} (outcome : Except SettingsFault α) : Prop :=
  ∀ fault, outcome = .error fault → fault.InText

namespace FailsInText

variable {α β : Type}

theorem ok (a : α) : FailsInText (.ok a) := by
  intro fault h
  cases h

theorem error {fault : SettingsFault} (hFault : fault.InText) :
    FailsInText (.error fault : Except SettingsFault α) := by
  intro other h
  cases h
  exact hFault

theorem map {outcome : Except SettingsFault α} (h : FailsInText outcome) (f : α → β) :
    FailsInText (f <$> outcome) := by
  cases outcome with
  | error fault => exact error (h fault rfl)
  | ok a => exact ok (f a)

theorem bind {outcome : Except SettingsFault α} {next : α → Except SettingsFault β}
    (h : FailsInText outcome) (hNext : ∀ a, FailsInText (next a)) :
    FailsInText (outcome >>= next) := by
  cases outcome with
  | error fault => exact error (h fault rfl)
  | ok a => exact hNext a

theorem mapM {items : List α} {f : α → Except SettingsFault β}
    (h : ∀ item, FailsInText (f item)) : FailsInText (items.mapM f) := by
  intro fault hFault
  obtain ⟨item, -, hItem⟩ := Json.exists_of_mapM_eq_error hFault
  exact h item fault hItem

end FailsInText

theorem failsInText_entryOfForm (path : String) (form : Form) :
    FailsInText (entryOfForm path form) := by
  unfold entryOfForm
  split
  · split
    · exact .ok _
    · exact .error trivial
  · exact .error trivial

theorem failsInText_entriesOfForm (path : String) (form : Form) :
    FailsInText (entriesOfForm path form) := by
  unfold entriesOfForm
  split
  · exact (FailsInText.mapM (failsInText_entryOfForm path)).map _
  · exact .error trivial

theorem failsInText_readKeepComments (entries : List (String × Value)) :
    FailsInText (readKeepComments entries) := by
  unfold readKeepComments
  split
  · exact .ok _
  · exact .ok _
  · exact .error trivial

theorem failsInText_readMaxDepth (entries : List (String × Value)) :
    FailsInText (readMaxDepth entries) := by
  unfold readMaxDepth
  split
  · exact .ok _
  · split
    · exact .error trivial
    · exact .ok _
  · exact .error trivial

theorem failsInText_ofEntries (path : AbsolutePath) (entries : List (String × Value)) :
    FailsInText (ofEntries path entries) :=
  (failsInText_readKeepComments entries).bind fun _ =>
    (failsInText_readMaxDepth entries).bind fun _ => .ok _

/-- What is wrong with the text of a settings file is laid to the text. -/
theorem failsInText_ofText (path : AbsolutePath) (text : List Char) :
    FailsInText (ofText path text) := by
  unfold ofText
  split
  · exact .error trivial
  · exact .ok _
  · exact (failsInText_entriesOfForm _ _).bind (failsInText_ofEntries path)
  · exact .error trivial

/-- Settings are loaded from a file with a text in it if and only if the text holds no form, or an
association list of which the last values under the known keys are fit. They are what the entries
say, and everything else that comes of it lies in the text. -/
theorem load_of_readFile {world : World} {start : Option String} {path : AbsolutePath}
    {bytes : List UInt8} {text : List Char}
    (hFile : ((findFile World.host start).run world).1 = some path)
    (hBytes : ((World.host.readFile path.toString).run world).1 = .ok bytes)
    (hText : Text.decodeUtf8 bytes = .ok text) :
    let content := Text.unifyNewlines text
    let loaded := ((load World.host start).run world).1
    ((∃ settings, loaded = .ok settings) ↔
      ∃ forms entries, readText content = .ok forms ∧ Lists forms entries ∧ Fit entries) ∧
    (∀ settings forms entries, loaded = .ok settings → readText content = .ok forms →
      Lists forms entries → settings.Says path entries) ∧
    ∀ fault, loaded = .error fault → fault.InText := by
  intro content loaded
  have hLoaded : loaded = ofText path content := by
    have hFound : world.settingsFile? start = some path := by
      rwa [asks_findFile start world] at hFile
    have hContent : world.tree.read world.directory path.toString = .ok bytes := hBytes
    simp only [loaded, asks_load start world, World.settings, hFound, hContent, ofBytes, hText]
    rfl
  simp only [hLoaded]
  refine ⟨?_, ?_, failsInText_ofText path content⟩
  · constructor
    · rintro ⟨settings, hSettings⟩
      obtain ⟨forms, entries, hRead, hLists, hEntries⟩ := ofText_eq_ok_iff.mp hSettings
      exact ⟨forms, entries, hRead, hLists, exists_ofEntries_iff.mp ⟨settings, hEntries⟩⟩
    · rintro ⟨forms, entries, hRead, hLists, hFit⟩
      obtain ⟨settings, hEntries⟩ :
          ∃ settings, ofEntries path (Entries.ofList entries) = .ok settings :=
        exists_ofEntries_iff.mpr hFit
      exact ⟨settings, ofText_eq_ok_iff.mpr ⟨forms, entries, hRead, hLists, hEntries⟩⟩
  · intro settings forms entries hSettings hRead hLists
    obtain ⟨_, others, hRead', hLists', hEntries⟩ := ofText_eq_ok_iff.mp hSettings
    obtain rfl := Except.ok.inj (hRead.symm.trans hRead')
    obtain rfl := hLists.unique hLists'
    exact says_of_ofEntries hEntries fun n => isWord_of_last? hRead hLists

theorem load_of_readFile_of_repeated_keys :
    let bytes : List UInt8 := [0x28, 0x28, 0x78, 0x29, 0x28, 0x6d, 0x61, 0x78, 0x2d, 0x64, 0x65,
      0x70, 0x74, 0x68, 0x20, 0x2e, 0x20, 0x37, 0x29, 0x28, 0x78, 0x20, 0x2e, 0x20, 0x31, 0x29,
      0x29]
    let world : World := { tree := ⟨[(["kelp.it"], .file bytes)]⟩, directory := .root }
    ∃ settings, ((load World.host (some "kelp.it")).run world).1 = .ok settings ∧
      settings.Says (.ofText .root "kelp.it")
        [("x", .bool false), ("max-depth", .int 7), ("x", .int 1)] := by
  intro bytes world
  have hFile : ((findFile World.host (some "kelp.it")).run world).1 =
      some (.ofText .root "kelp.it") := by
    rw [asks_findFile]
    decide
  have hBytes : ((World.host.readFile (AbsolutePath.ofText .root "kelp.it").toString).run
      world).1 = .ok bytes := by
    show world.tree.read world.directory _ = .ok bytes
    rw [FileTree.read_of_checkPath _ _ (FileTree.checkPath_eq_ok_iff.2 (by decide))]
    decide +kernel
  generalize hContent : ['(', '(', 'x', ')', '(', 'm', 'a', 'x', '-', 'd', 'e', 'p', 't', 'h', ' ',
    '.', ' ', '7', ')', '(', 'x', ' ', '.', ' ', '1', ')', ')'] = text
  have hText : Text.decodeUtf8 bytes = .ok text := by
    subst hContent
    decide +kernel
  have hNewlines : Text.unifyNewlines text = text := by
    subst hContent
    decide +kernel
  have hScan : scan text =
      [⟨0, 1, text⟩, ⟨1, 2, text⟩, ⟨2, 3, text⟩, ⟨3, 4, text⟩, ⟨4, 5, text⟩, ⟨5, 14, text⟩,
        ⟨15, 16, text⟩, ⟨17, 18, text⟩, ⟨18, 19, text⟩, ⟨19, 20, text⟩, ⟨20, 21, text⟩,
        ⟨22, 23, text⟩, ⟨24, 25, text⟩, ⟨25, 26, text⟩, ⟨26, 27, text⟩] := by
    subst hContent
    decide +kernel
  have hRead : readText text = .ok [.properList [.cons (.symbol (.text "x")) .emptyList,
      .cons (.symbol (.text "max-depth")) (.integer (.int 7)),
      .cons (.symbol (.text "x")) (.integer (.int 1))]] := by
    rw [readText_eq_conclude, hScan]
    subst hContent
    rfl
  obtain ⟨hIff, hSays, -⟩ := load_of_readFile hFile hBytes hText
  rw [hNewlines] at hIff hSays
  have hLists : Lists [.properList [.cons (.symbol (.text "x")) .emptyList,
      .cons (.symbol (.text "max-depth")) (.integer (.int 7)),
      .cons (.symbol (.text "x")) (.integer (.int 1))]]
      [("x", .bool false), ("max-depth", .int 7), ("x", .int 1)] :=
    .list rfl (.cons ⟨_, rfl, rfl⟩ (.cons ⟨_, rfl, rfl⟩ (.cons ⟨_, rfl, rfl⟩ .nil)))
  have hFit : Fit [("x", .bool false), ("max-depth", .int 7), ("x", .int 1)] := by
    refine ⟨fun value hLast => ?_, fun value hLast => ?_⟩
    · cases hLast
    · cases hLast
      exact ⟨7, rfl, by decide⟩
  obtain ⟨settings, hSettings⟩ := hIff.mpr ⟨_, _, hRead, hLists, hFit⟩
  exact ⟨settings, hSettings, hSays settings _ _ hSettings hRead hLists⟩

end Settings

end LispReader
