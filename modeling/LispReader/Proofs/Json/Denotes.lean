import Mathlib.Data.List.Perm.Basic
import LispReader.Json.Document
import LispReader.Proofs.Json.Double
import LispReader.Proofs.Json.Flat
import LispReader.Proofs.Json.Quoted

/-!
Texts that denote a value wherever one is awaited. What is written for a scalar does, and so does an
object whose members are written, in whatever order and with whatever spaces its layout has between
them. The document that reads on behind such a text has the value put in its place.
-/

namespace LispReader.Json

/-- The document behind a text. -/
def Document.run (document : Document) (text : List Char) : Except ReadFault Document :=
  (marks text).foldlM Document.feed document

/-- In place of a value, a text is read as this one in front of whatever stops a number. -/
def Denotes (text : List Char) (value : Value) : Prop :=
  ∀ (document : Document) (rest : List Char), document.awaitsValue = true → StopsNumber rest →
    document.run (text ++ rest) = document.place value >>= fun next => next.run rest

/-- A text of which nothing is read. -/
def IsBlank (text : List Char) : Prop :=
  ∀ c ∈ text, isSpace c = true

/-- A character with nothing but spaces around it. -/
def Around (c : Char) (text : List Char) : Prop :=
  ∃ before behind, IsBlank before ∧ IsBlank behind ∧ text = before ++ c :: behind

/-- A layout whose texts can be read: only spaces stand around commas and colons and in front of
lines. -/
structure Layout.Readable (layout : Layout) : Prop where
  itemSeparator : Around ',' layout.itemSeparator.toList
  keySeparator : Around ':' layout.keySeparator.toList
  indent : ∀ unit, layout.indent = some unit → IsBlank unit.toList

theorem next?_eq_none_of_isSpace {c : Char} (hSpace : isSpace c = true) (rest : List Char) :
    Mark.next? (c :: rest) = none := by
  simp only [isSpace, Bool.or_eq_true, beq_iff_eq] at hSpace
  obtain ((rfl | rfl) | rfl) | rfl := hSpace <;> rfl

theorem endsNumber_of_isSpace {c : Char} (hSpace : isSpace c = true) : endsNumber c = true := by
  simp only [isSpace, Bool.or_eq_true, beq_iff_eq] at hSpace
  obtain ((rfl | rfl) | rfl) | rfl := hSpace <;> rfl

namespace Document

theorem run_nil (document : Document) : document.run [] = .ok document := by
  rw [run, marks]
  rfl

/-- Spaces are passed over. -/
theorem run_blank_append {blank : List Char} (hBlank : IsBlank blank) (document : Document)
    (rest : List Char) : document.run (blank ++ rest) = document.run rest := by
  induction blank with
  | nil => rfl
  | cons c others ih =>
      obtain ⟨hSpace, hOthers⟩ := List.forall_mem_cons.1 hBlank
      rw [← ih hOthers, run, List.cons_append, marks, if_pos hSpace, run]

/-- The mark in front of a text is fed first. -/
theorem run_of_next? {document : Document} {text rest : List Char} {mark : Mark}
    (hNext : Mark.next? text = some (mark, rest)) :
    document.run text = document.feed mark >>= fun next => next.run rest := by
  cases text with
  | nil => cases hNext
  | cons c others =>
      have hSpace : isSpace c = false := by
        cases hCase : isSpace c with
        | false => rfl
        | true =>
            rw [next?_eq_none_of_isSpace hCase] at hNext
            cases hNext
      have hMarks : marks (c :: others) = mark :: marks rest := by
        rw [marks, if_neg (by simp [hSpace])]
        split <;> simp_all
      rw [run, hMarks, List.foldlM_cons]
      rfl

theorem run_around {c : Char} {mark : Mark} {text : List Char} (hAround : Around c text)
    (hMark : ∀ rest, Mark.next? (c :: rest) = some (mark, rest)) (document : Document)
    (rest : List Char) :
    document.run (text ++ rest) = document.feed mark >>= fun next => next.run rest := by
  obtain ⟨before, behind, hBefore, hBehind, rfl⟩ := hAround
  rw [List.append_assoc, run_blank_append hBefore, List.cons_append, run_of_next? (hMark _)]
  simp only [run_blank_append hBehind]

end Document

theorem stopsNumber_blank_append {blank rest : List Char} (hBlank : IsBlank blank)
    (hRest : StopsNumber rest) : StopsNumber (blank ++ rest) := by
  cases blank with
  | nil => exact hRest
  | cons c others =>
      intro d hd
      obtain rfl : c = d := by simpa using hd
      exact endsNumber_of_isSpace (hBlank c List.mem_cons_self)

theorem Around.stopsNumber {c : Char} {text : List Char} (hAround : Around c text)
    (hEnds : endsNumber c = true) (rest : List Char) : StopsNumber (text ++ rest) := by
  obtain ⟨before, behind, hBefore, -, rfl⟩ := hAround
  rw [List.append_assoc]
  refine stopsNumber_blank_append hBefore fun d hd => ?_
  obtain rfl : c = d := by simpa using hd
  exact hEnds

/-- Alone, a text is read as the value that it denotes. -/
theorem Denotes.read_eq {text : List Char} {value : Value} (h : Denotes text value) :
    read text = .ok value := by
  have hRun := h .empty [] rfl (by simp [StopsNumber])
  rw [List.append_nil] at hRun
  change (Document.run .empty text >>= _) = _
  rw [hRun]
  simp only [Document.place, Document.empty, Option.isNone_none, if_true, bind, Except.bind,
    Document.run_nil]
  rfl

/-- A mark that places a value denotes it. -/
theorem Denotes.of_next? {text : List Char} {mark : Mark} {value : Value}
    (hNext : ∀ rest, StopsNumber rest → Mark.next? (text ++ rest) = some (mark, rest))
    (hFeed : ∀ document : Document, document.awaitsValue = true →
      document.feed mark = document.place value) : Denotes text value := by
  intro document rest hAwaits hRest
  rw [Document.run_of_next? (hNext rest hRest), hFeed document hAwaits]

/-- A quoted text denotes the text: where a value is awaited, it is no key. -/
theorem denotes_quote (asciiOnly : Bool) (text : String) :
    Denotes (quote asciiOnly text).toList (.text text) := by
  refine .of_next? (fun rest _ => next?_quote asciiOnly text rest) fun document hAwaits => ?_
  obtain ⟨levels, value⟩ := document
  cases levels with
  | nil => rfl
  | cons level outer => cases level <;> first | rfl | cases hAwaits

theorem denotes_int {value : Int} (hShort : Decimal.IsShort value) :
    Denotes (toString value).toList (.int value) := by
  refine .of_next? (fun rest hRest => next?_written value hRest) fun document hAwaits => ?_
  simp only [Document.feed, hAwaits, if_true, Decimal.readInteger_written hShort]

/-- A double that is a number denotes itself, if it is read back from its text wherever it is
finite. -/
theorem denotes_float {x : Float} (hNumber : x.isNaN = false)
    (hRead : x.isFinite = true →
      Decimal.readFloat? (floatFormat.text x).toList = some x) :
    Denotes (floatFormat.text x).toList (.float x) := by
  cases hValue : Decimal.Binary64.ofFloat x with
  | nan =>
      rw [Decimal.isNaN_of_ofFloat hValue] at hNumber
      cases hNumber
  | infinity negative =>
      exact .of_next? (fun rest _ => next?_infinity hValue rest) fun document _ => rfl
  | finite negative significand exponent =>
      refine .of_next? (fun rest hRest => next?_of_isReal (isReal_text floatFormat hValue) hRest)
        fun document _ => ?_
      simp only [Document.feed, hRead (Decimal.isFinite_of_ofFloat hValue)]

end LispReader.Json
