import LispReader.Proofs.Json.Denotes
import LispReader.Proofs.Value.Entries

/-!
Written objects. The members of an object are read one behind the other, each putting its value
under its key; so an object of entries with different keys denotes these entries in the order in
which they are written. Sorting only changes that order.
-/

namespace LispReader.Json

variable {layout : Layout}

/-- A member of an object as it is written: a key, and a text that denotes the value. -/
def Member (layout : Layout) (text : String) (entry : String × Value) : Prop :=
  ∃ value, text = layout.quote entry.1 ++ layout.keySeparator ++ value ∧
    Denotes value.toList entry.2

/-- Where a key is awaited, a member puts its value under the key. -/
theorem Member.run (hReadable : layout.Readable) {text : String} {entry : String × Value}
    (hMember : Member layout text entry) {document : Document}
    {entries : List (String × Value)} {outer : List Level} {value : Option Value}
    (hKey : document.feed (.string entry.1) = .ok ⟨.objectKey entries entry.1 :: outer, value⟩)
    {rest : List Char} (hRest : StopsNumber rest) :
    document.run (text.toList ++ rest) =
      Document.run ⟨.objectEntry (Entries.put entries entry.1 entry.2) :: outer, value⟩ rest := by
  obtain ⟨written, rfl, hDenotes⟩ := hMember
  have hQuote := next?_quote layout.asciiOnly entry.1
    (layout.keySeparator.toList ++ (written.toList ++ rest))
  simp only [String.toList_append, List.append_assoc]
  rw [Layout.quote, Document.run_of_next? hQuote, hKey]
  simp only [bind, Except.bind]
  rw [Document.run_around hReadable.keySeparator (fun _ => rfl)]
  simp only [Document.feed, bind, Except.bind]
  rw [hDenotes _ _ rfl hRest]
  rfl

theorem stopsNumber_members {separator : List Char} (hSeparator : Around ',' separator)
    (texts : List String) {rest : List Char} (hRest : StopsNumber rest) :
    StopsNumber (texts.flatMap (fun text => separator ++ text.toList) ++ rest) := by
  cases texts with
  | nil => exact hRest
  | cons next others =>
      rw [List.flatMap_cons, List.append_assoc, List.append_assoc]
      exact hSeparator.stopsNumber rfl _

/-- Members behind the first one, each behind a comma. -/
theorem run_members (hReadable : layout.Readable) {separator : List Char}
    (hSeparator : Around ',' separator) {texts : List String} {members : List (String × Value)}
    (hMembers : List.Forall₂ (Member layout) texts members) {entries : List (String × Value)}
    {outer : List Level} {value : Option Value} {rest : List Char} (hRest : StopsNumber rest) :
    Document.run ⟨.objectEntry entries :: outer, value⟩
        (texts.flatMap (fun text => separator ++ text.toList) ++ rest) =
      Document.run ⟨.objectEntry (members.foldl (fun done entry =>
        Entries.put done entry.1 entry.2) entries) :: outer, value⟩ rest := by
  induction hMembers generalizing entries with
  | nil => rfl
  | @cons text entry texts members hMember _ ih =>
      have hStops := stopsNumber_members hSeparator texts hRest
      rw [List.flatMap_cons, List.append_assoc, List.append_assoc,
        Document.run_around hSeparator (fun _ => rfl)]
      simp only [Document.feed, bind, Except.bind]
      rw [hMember.run hReadable rfl hStops, ih]
      rfl

theorem isBlank_lineStart (hReadable : layout.Readable) (level : Nat) :
    IsBlank (layout.lineStart level).toList := by
  unfold Layout.lineStart
  split
  · next unit hUnit =>
      intro c hc
      rw [String.toList_append, String.toList_join, List.mem_append] at hc
      obtain hc | hc := hc
      · obtain rfl : c = '\n' := by simpa using hc
        rfl
      · obtain ⟨text, hText, hChar⟩ := List.mem_flatMap.1 hc
        obtain rfl := (List.mem_replicate.1 hText).2
        exact hReadable.indent _ hUnit c hChar
  · simp [IsBlank]

theorem around_append_blank {c : Char} {text blank : List Char} (hAround : Around c text)
    (hBlank : IsBlank blank) : Around c (text ++ blank) := by
  obtain ⟨before, behind, hBefore, hBehind, rfl⟩ := hAround
  refine ⟨before, behind ++ blank, hBefore, fun d hd => ?_, by simp⟩
  exact (List.mem_append.1 hd).elim (hBehind d) (hBlank d)

theorem toList_bracket_append (layout : Layout) (level : Nat) {opening closing : String}
    (c d : Char) (hOpening : opening.toList = [c]) (hClosing : closing.toList = [d])
    (first : String) (others : List String) (rest : List Char) :
    (layout.bracket level opening closing (first :: others)).toList ++ rest =
      c :: ((layout.lineStart (level + 1)).toList ++ (first.toList ++
        (others.flatMap (fun text => (layout.itemSeparator.toList ++
          (layout.lineStart (level + 1)).toList) ++ text.toList) ++
            ((layout.lineStart level).toList ++ d :: rest)))) := by
  simp [Layout.bracket, intercalate_cons, List.flatMap_map, hOpening, hClosing]

/-- An object of members denotes their entries. -/
theorem denotes_object (hReadable : layout.Readable) (level : Nat) {texts : List String}
    {members : List (String × Value)} (hMembers : List.Forall₂ (Member layout) texts members)
    (hSome : texts ≠ []) (hNodup : (members.map Prod.fst).Nodup) :
    Denotes (layout.bracket level "\x7b" "\x7d" texts).toList (.dict members) := by
  obtain ⟨first, others, rfl⟩ := List.exists_cons_of_ne_nil hSome
  obtain ⟨entry, members, hFirst, hOthers, rfl⟩ := List.forall₂_cons_left_iff.1 hMembers
  intro document rest hAwaits hRest
  have hLine := isBlank_lineStart hReadable level
  have hInner := isBlank_lineStart hReadable (level + 1)
  have hSeparator := around_append_blank hReadable.itemSeparator hInner
  have hClose : StopsNumber ((layout.lineStart level).toList ++ '\x7d' :: rest) :=
    stopsNumber_blank_append hLine (by simp [StopsNumber, endsNumber])
  have hEntries : members.foldl (fun done entry => Entries.put done entry.1 entry.2)
      (Entries.put [] entry.1 entry.2) = entry :: members :=
    Entries.foldl_put_of_nodup hNodup
  rw [toList_bracket_append layout level '\x7b' '\x7d' rfl rfl, Document.run_of_next? rfl]
  simp only [Document.feed, Document.openLevel, hAwaits, if_true, bind, Except.bind]
  rw [Document.run_blank_append hInner,
    hFirst.run hReadable rfl (stopsNumber_members hSeparator others hClose),
    run_members hReadable hSeparator hOthers hClose, hEntries, Document.run_blank_append hLine,
    Document.run_of_next? rfl]
  rfl

/-- An entry that is given its value as it has been written, with a text that denotes it. -/
def WrittenEntry (given : String × Except WriteFault String) (entry : String × Value) : Prop :=
  given.1 = entry.1 ∧ ∃ text, given.2 = .ok text ∧ Denotes text.toList entry.2

theorem exists_mapM_writeEntry (layout : Layout) {given : List (String × Except WriteFault String)}
    {entries : List (String × Value)} (hGiven : List.Forall₂ WrittenEntry given entries) :
    ∃ texts, given.mapM (writeEntry layout) = .ok texts ∧
      List.Forall₂ (Member layout) texts entries := by
  induction hGiven with
  | nil => exact ⟨[], rfl, .nil⟩
  | @cons first entry given entries hFirst _ ih =>
      obtain ⟨hKey, text, hText, hDenotes⟩ := hFirst
      obtain ⟨texts, hTexts, hMembers⟩ := ih
      refine ⟨(layout.quote entry.1 ++ layout.keySeparator ++ text) :: texts, ?_,
        .cons ⟨text, rfl, hDenotes⟩ hMembers⟩
      rw [List.mapM_cons, hTexts, writeEntry, hText, hKey]
      rfl

/-- A written object denotes its entries in some order. -/
theorem exists_writeObject (hReadable : layout.Readable) (level : Nat)
    {given : List (String × Except WriteFault String)} {entries : List (String × Value)}
    (hGiven : List.Forall₂ WrittenEntry given entries) (hSome : given ≠ [])
    (hNodup : (entries.map Prod.fst).Nodup) :
    ∃ text sorted, writeObject layout level given = .ok text ∧ sorted.Perm entries ∧
      Denotes text.toList (.dict sorted) := by
  -- sorted or not, the entries are those that are given, and so are what they denote
  let ordered := if layout.sortKeys then given.mergeSort fun a b => a.1 ≤ b.1 else given
  have hOrdered : ordered.Perm given := by
    unfold ordered
    split
    · exact List.mergeSort_perm ..
    · exact .refl given
  obtain ⟨sorted, hSorted, hPerm⟩ := List.perm_comp_forall₂ hOrdered hGiven
  obtain ⟨texts, hTexts, hMembers⟩ := exists_mapM_writeEntry layout hSorted
  have hTextsSome : texts ≠ [] := by
    rintro rfl
    have hNone := hSorted.length_eq.trans hMembers.length_eq.symm
    rw [hOrdered.length_eq] at hNone
    exact hSome (List.eq_nil_of_length_eq_zero hNone)
  refine ⟨_, sorted, ?_, hPerm, denotes_object hReadable level hMembers hTextsSome
    ((hPerm.map Prod.fst).nodup_iff.2 hNodup)⟩
  change (ordered.mapM (writeEntry layout) >>= fun items =>
    .ok (layout.bracket level "\x7b" "\x7d" items)) = _
  rw [hTexts]
  rfl

end LispReader.Json
