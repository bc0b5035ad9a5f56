import LispReader.Proofs.Json.Plain
import LispReader.Proofs.Record.Typed

/-!
Records, one to a line. A text that is laid out in one line holds printable ASCII only, so a line
ends where its record does. The forms of a text are written whatever they are, and each line is read
as its form.
-/

namespace LispReader.Record

open Json (Layout Options IsPlain WritesPlain mapM_eq_ok_iff_forall₂)

/-- The texts on a stack are plain. -/
def PlainFragments (pieces : List Piece) : Prop :=
  ∀ text, .fragment text ∈ pieces → IsPlain text.toList

@[simp]
theorem plainFragments_append {first second : List Piece} :
    PlainFragments (first ++ second) ↔ PlainFragments first ∧ PlainFragments second := by
  simp only [PlainFragments, List.mem_append, or_imp, forall_and]

@[simp]
theorem plainFragments_nil : PlainFragments [] :=
  fun _ hText => nomatch hText

theorem plainFragments_fragment {text : String} {rest : List Piece} :
    PlainFragments (.fragment text :: rest) ↔ IsPlain text.toList ∧ PlainFragments rest := by
  simp only [PlainFragments, List.mem_cons, Piece.fragment.injEq, or_imp, forall_and, forall_eq]

section

variable {layout : Layout} (hPlain : layout.Plain)
include hPlain

theorem plain_valueLayout : (valueLayout layout).Plain :=
  have hItem : IsPlain ", ".toList := by decide
  have hKey : IsPlain ": ".toList := by decide
  ⟨hPlain.asciiOnly, rfl, hItem, hKey⟩

theorem plain_fieldPieces {field : String × Token.Field Value} {pieces : List Piece}
    (hPieces : fieldPieces layout field = .ok pieces) : PlainFragments pieces := by
  have hKey : IsPlain (layout.itemSeparator ++ layout.quote field.1 ++
      layout.keySeparator).toList := by
    simp [hPlain.item, hPlain.key, hPlain.quote]
  obtain ⟨name, held⟩ := field
  cases hHeld : held.form? with
  | some form =>
      rw [fieldPieces, fieldPiece_of_form? layout hHeld] at hPieces
      cases hPieces
      exact plainFragments_fragment.2 ⟨hKey, by simp [PlainFragments]⟩
  | none =>
      obtain ⟨value, rfl, -⟩ := Token.Field.eq_leaf_of_form?_eq_none hHeld
      rw [fieldPieces, fieldPiece_of_form?_eq_none layout hHeld] at hPieces
      cases hValue : Json.write (valueLayout layout) 0 value with
      | error fault =>
          rw [hValue] at hPieces
          cases hPieces
      | ok text =>
          have hText := Json.plain_write (plain_valueLayout hPlain) 0 value text hValue
          rw [hValue] at hPieces
          cases hPieces
          exact plainFragments_fragment.2
            ⟨hKey, plainFragments_fragment.2 ⟨hText, plainFragments_nil⟩⟩

/-- The pieces of a record hold no text that is not plain. -/
theorem plain_expand {form : Form} {pieces : List Piece}
    (hPieces : expand layout form = .ok pieces) : PlainFragments pieces := by
  obtain ⟨members, hFields, rfl⟩ := exists_of_expand_eq_ok hPieces
  have hMembers : PlainFragments members.flatten := by
    intro text hText
    obtain ⟨member, hMember, hPiece⟩ := List.mem_flatten.1 hText
    obtain ⟨field, -, hOk⟩ := Json.exists_of_mem_mapM hFields hMember
    exact plain_fieldPieces hPlain hOk text hPiece
  have hBraces : IsPlain "\x7b".toList ∧ IsPlain "\x7d".toList := by decide
  simp only [recordPieces, plainFragments_fragment, plainFragments_append, plainFragments_nil,
    String.toList_append, IsPlain.append_iff]
  exact ⟨⟨⟨hBraces.1, hPlain.quote _⟩, hPlain.key⟩, hPlain.quote _, hMembers, hBraces.2, trivial⟩

/-- What the loop over a stack writes is plain, if what stands on the stack is. -/
theorem plain_writePieces {pieces : List Piece} (hPieces : PlainFragments pieces)
    {texts : List String} (hTexts : writePieces layout pieces = .ok texts) :
    ∀ text ∈ texts, IsPlain text.toList := by
  -- along the recursion of the loop, whose stack may grow from one step to the next
  induction pieces using writePieces.induct layout generalizing texts with
  | case1 =>
      rw [writePieces] at hTexts
      cases hTexts
      exact List.forall_mem_nil _
  | case2 text rest ih =>
      obtain ⟨hText, hRest⟩ := plainFragments_fragment.1 hPieces
      rw [writePieces_fragment] at hTexts
      cases hOthers : writePieces layout rest with
      | error fault =>
          rw [hOthers] at hTexts
          cases hTexts
      | ok others =>
          rw [hOthers] at hTexts
          cases hTexts
          exact List.forall_mem_cons.2 ⟨hText, ih hRest hOthers⟩
  | case3 form rest fault hFault =>
      rw [writePieces_of_expand_eq_error hFault] at hTexts
      cases hTexts
  | case4 form rest members hMembers ih =>
      have hRest : PlainFragments rest := fun text hText =>
        hPieces text (List.mem_cons_of_mem _ hText)
      rw [writePieces_of_expand_eq_ok hMembers] at hTexts
      exact ih (plainFragments_append.2 ⟨plain_expand hPlain hMembers, hRest⟩) hTexts

theorem plain_writeForm (form : Form) : WritesPlain (write layout form) := by
  have hStack : PlainFragments [.token form] := by simp [PlainFragments]
  refine .map fun texts hTexts => ?_
  have hPlainTexts := plain_writePieces hPlain hStack hTexts
  simpa using IsPlain.flatMap hPlainTexts

end

/-- What is written for a value where nothing is asked for stands in one line. -/
theorem plain_encode (value : Value) (stepwise : Bool) :
    WritesPlain (encode {} value stepwise) := by
  have hPlain : ({} : Options).layout.Plain := ⟨rfl, rfl, by decide, by decide⟩
  have hShowing (shows : Bool) :
      Layout.Plain { ({} : Options).layout with showsRefused := shows } :=
    ⟨rfl, rfl, hPlain.item, hPlain.key⟩
  cases value with
  | token form => exact plain_writeForm hPlain form
  | _ => exact Json.plain_write (hShowing _) 0 _

/-- Lines are written if all values are, and each line is the text of its value. -/
theorem encodeLines_eq_ok_iff {values : List Value} {lines : Lines} :
    encodeLines values = .ok lines ↔
      ∃ texts, List.Forall₂ (fun value text => encode {} value false = .ok text) values texts ∧
        lines = ⟨String.join (texts.map fun line => line ++ "\n"), texts.length⟩ := by
  simp only [← mapM_eq_ok_iff_forall₂, encodeLines]
  cases values.mapM fun value => encode {} value false with
  | error fault => simp [bind, Except.bind]
  | ok texts => simp [bind, Except.bind, pure, Except.pure, eq_comm]

/-- A line stands for a form: it does not end before its record does, and it is read as the form. -/
structure LineOf (form : Form) (line : String) : Prop where
  unbroken : '\n' ∉ line.toList
  read_eq : read line.toList = .ok form

/-- The forms of a text are written, each of them on a line of its own, unless the text is so long
that the marks of a comment may be too many for a number that can be written. -/
theorem exists_encodeLines_of_readText {source : List Char} {keepComments : Bool} {maxDepth : Int}
    {forms : List Form} (hRead : readText source keepComments maxDepth = .ok forms)
    (hLength : source.length < 10 ^ Decimal.digitLimit) :
    ∃ lines, encodeLines (forms.map .token) =
        .ok ⟨String.join (lines.map fun line => line ++ "\n"), lines.length⟩ ∧
      List.Forall₂ LineOf forms lines := by
  have hOptions : ReadableOptions {} := ⟨rfl, by simp, by simp⟩
  have hWritten : ∀ form ∈ forms, ∃ line, encode {} (.token form) false = .ok line ∧
      LineOf form line := by
    intro form hForm
    have hTyped := wellTyped_of_readText hRead hLength form hForm
    obtain ⟨line, hLine, hBack⟩ := read_encode hOptions hTyped (fun x _ => roundTrips x) false
    exact ⟨line, hLine, (plain_encode _ _ _ hLine).newline_notMem, hBack⟩
  obtain ⟨lines, hLines⟩ := exists_forall₂ hWritten
  refine ⟨lines, encodeLines_eq_ok_iff.2 ⟨lines, ?_, rfl⟩, hLines.imp fun _ _ h => h.2⟩
  exact List.forall₂_map_left_iff.2 (hLines.imp fun _ _ h => h.1)

end LispReader.Record
