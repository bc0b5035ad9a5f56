import LispReader.Token.Chain
import LispReader.Value.Basic

/-!
The grammar of forms, apart from any reader. A form is an atom, a list of forms, a list of at
least one form with a form behind its dot, or a quote mark with the form it applies to. A
derivation says by which of these rules a form was made. It is written with one word of tokens,
stands for one form and nests to some depth. A word has at most one derivation.
-/

namespace LispReader

/-- How a form is made from tokens. -/
inductive Derivation where
  | atom (token : Form) (isAtom : token.isStructural = false)
  | list (items : List Derivation)
  /-- A list with a tail of its own. There is at least one item in front of the dot. -/
  | dotted (first : Derivation) (others : List Derivation) (tail : Derivation)
  | quoted (operator : Value) (form : Derivation)

namespace Derivation

mutual

/-- The tokens that a derivation is written with. -/
def word : Derivation → List Form
  | .atom token _ => [token]
  | .list items => .listStart :: (words items ++ [.listEnd])
  | .dotted first others tail =>
    .listStart :: (word first ++ words others ++ .dot :: (word tail ++ [.listEnd]))
  | .quoted operator form => .quotePrefix operator :: word form

/-- The tokens of derivations in a row. -/
def words : List Derivation → List Form
  | [] => []
  | first :: others => word first ++ words others

end

mutual

/-- The form that a derivation stands for. Items are folded from the right onto the empty list, or
onto the form behind the dot. -/
def value : Derivation → Form
  | .atom token _ => token
  | .list items => .properList (values items)
  | .dotted first others tail => .chain (value first :: values others) (value tail)
  | .quoted operator form => .quoteForm operator (value form)

/-- The forms of derivations in a row. -/
def values : List Derivation → List Form
  | [] => []
  | first :: others => value first :: values others

end

mutual

/-- How deep a derivation nests. Every list and every quote mark is one level. -/
def depth : Derivation → Nat
  | .atom _ _ => 0
  | .list items => depths items + 1
  | .dotted first others tail => max (max (depth first) (depths others)) (depth tail) + 1
  | .quoted _ form => depth form + 1

/-- The greatest depth among derivations in a row. -/
def depths : List Derivation → Nat
  | [] => 0
  | first :: others => max (depth first) (depths others)

end

/-- Induction on a derivation. What is to be shown may be taken for all items of a list at once. -/
@[elab_as_elim]
theorem induct {motive : Derivation → Prop}
    (atom : ∀ token isAtom, motive (.atom token isAtom))
    (list : ∀ items, (∀ item ∈ items, motive item) → motive (.list items))
    (dotted : ∀ first others tail, (∀ item ∈ first :: others, motive item) → motive tail →
      motive (.dotted first others tail))
    (quoted : ∀ operator form, motive form → motive (.quoted operator form))
    (derivation : Derivation) : motive derivation := by
  refine @Derivation.rec motive (fun items => ∀ item ∈ items, motive item) atom list ?_ quoted ?_ ?_
    derivation
  · intro first others tail hFirst hOthers hTail
    exact dotted first others tail (List.forall_mem_cons.mpr ⟨hFirst, hOthers⟩) hTail
  · simp
  · intro first others hFirst hOthers
    exact List.forall_mem_cons.mpr ⟨hFirst, hOthers⟩

@[simp]
theorem words_append (first second : List Derivation) :
    words (first ++ second) = words first ++ words second := by
  induction first with
  | nil => rfl
  | cons derivation rest ih => simp [words, ih]

@[simp]
theorem values_append (first second : List Derivation) :
    values (first ++ second) = values first ++ values second := by
  induction first with
  | nil => rfl
  | cons derivation rest ih => simp [values, ih]

@[simp]
theorem depths_append (first second : List Derivation) :
    depths (first ++ second) = max (depths first) (depths second) := by
  induction first with
  | nil => simp [depths]
  | cons derivation rest ih => simp [depths, ih, Nat.max_assoc]

/-- A dotted list is written like a list, up to its dot. -/
theorem word_dotted (first : Derivation) (others : List Derivation) (tail : Derivation) :
    (dotted first others tail).word =
      .listStart :: (words (first :: others) ++ .dot :: (tail.word ++ [.listEnd])) := by
  simp [word, words]

theorem value_dotted (first : Derivation) (others : List Derivation) (tail : Derivation) :
    (dotted first others tail).value = .chain (values (first :: others)) tail.value := by
  simp [value, values]

theorem depth_dotted (first : Derivation) (others : List Derivation) (tail : Derivation) :
    (dotted first others tail).depth = max (depths (first :: others)) tail.depth + 1 := by
  simp [depth, depths]

/-- Whether a form can begin with a token. -/
def startsForm (token : Form) : Bool :=
  match token with
  | .listEnd | .dot | .comment _ _ => false
  | _ => true

theorem startsForm_of_isAtom {token : Form} (h : token.isStructural = false) :
    startsForm token = true := by
  cases token <;> first | rfl | simp [Token.isStructural, Token.kind, Token.Kind.isStructural] at h

/-- A word is not empty, and a form begins with its first token. -/
theorem exists_word_eq_cons (derivation : Derivation) :
    ∃ token rest, derivation.word = token :: rest ∧ startsForm token = true := by
  cases derivation with
  | atom token isAtom => exact ⟨token, [], rfl, startsForm_of_isAtom isAtom⟩
  | list items => exact ⟨_, _, rfl, rfl⟩
  | dotted first others tail => exact ⟨_, _, rfl, rfl⟩
  | quoted operator form => exact ⟨_, _, rfl, rfl⟩

/-- No form begins at the front of these tokens. -/
def Closed (tokens : List Form) : Prop :=
  ∀ token ∈ tokens.head?, startsForm token = false

theorem closed_nil : Closed [] := by
  simp [Closed]

theorem closed_cons {token : Form} {rest : List Form} (h : startsForm token = false) :
    Closed (token :: rest) := by
  simpa [Closed] using h

/-- A word is never found where no form begins. -/
theorem not_closed_word_append (derivation : Derivation) (rest : List Form) :
    ¬ Closed (derivation.word ++ rest) := by
  obtain ⟨token, tail, hWord, hStarts⟩ := exists_word_eq_cons derivation
  intro hClosed
  rw [hWord] at hClosed
  have hEnds := hClosed token (by simp)
  rw [hStarts] at hEnds
  cases hEnds

/-- Derivations in a row are told apart by their words, if no form follows them and each of them is
cut off from whatever follows in one way only. -/
theorem words_append_inj {derivations : List Derivation}
    (hCut : ∀ derivation ∈ derivations, ∀ derivation' rest rest',
      derivation.word ++ rest = derivation'.word ++ rest' →
        derivation = derivation' ∧ rest = rest')
    {derivations' : List Derivation} {rest rest' : List Form} (hClosed : Closed rest)
    (hClosed' : Closed rest') (h : words derivations ++ rest = words derivations' ++ rest') :
    derivations = derivations' ∧ rest = rest' := by
  induction derivations generalizing derivations' with
  | nil =>
      cases derivations' with
      | nil => exact ⟨rfl, h⟩
      | cons derivation' others' =>
          simp only [words, List.nil_append, List.append_assoc] at h
          exact absurd (h ▸ hClosed) (not_closed_word_append _ _)
  | cons derivation others ih =>
      cases derivations' with
      | nil =>
          simp only [words, List.nil_append, List.append_assoc] at h
          exact absurd (h ▸ hClosed') (not_closed_word_append _ _)
      | cons derivation' others' =>
          simp only [words, List.append_assoc] at h
          obtain ⟨rfl, hOthers⟩ := hCut derivation (by simp) derivation' _ _ h
          obtain ⟨rfl, hRest⟩ := ih (fun d hd => hCut d (by simp [hd])) hOthers
          exact ⟨rfl, hRest⟩

/-- The word of a derivation is cut off in one way only, whatever follows it. -/
theorem word_append_inj {derivation derivation' : Derivation} {rest rest' : List Form}
    (h : derivation.word ++ rest = derivation'.word ++ rest') :
    derivation = derivation' ∧ rest = rest' := by
  induction derivation using induct generalizing derivation' rest rest' with
  | atom token isAtom =>
      cases derivation' with
      | atom token' isAtom' => simp_all [word]
      | list | dotted | quoted =>
          obtain ⟨rfl, -⟩ := List.cons.inj h
          cases isAtom
  | list items ih =>
      have hCut := fun d hd d' r r' => @ih d hd d' r r'
      cases derivation' with
      | atom token' isAtom' =>
          obtain ⟨rfl, -⟩ := List.cons.inj h
          cases isAtom'
      | list items' =>
          simp only [word, List.cons_append, List.append_assoc, List.cons.injEq, true_and] at h
          obtain ⟨rfl, hRest⟩ := words_append_inj hCut (closed_cons rfl) (closed_cons rfl) h
          exact ⟨rfl, by simpa using hRest⟩
      | dotted first others tail =>
          rw [word_dotted] at h
          simp only [word, List.cons_append, List.append_assoc, List.cons.injEq, true_and] at h
          have hEnds := (words_append_inj hCut (closed_cons rfl) (closed_cons rfl) h).2
          simp at hEnds
      | quoted => simp [word] at h
  | dotted first others tail ihItems ihTail =>
      have hCut := fun d hd d' r r' => @ihItems d hd d' r r'
      cases derivation' with
      | atom token' isAtom' =>
          obtain ⟨rfl, -⟩ := List.cons.inj h
          cases isAtom'
      | list items' =>
          rw [word_dotted] at h
          simp only [word, List.cons_append, List.append_assoc, List.cons.injEq, true_and] at h
          have hEnds := (words_append_inj hCut (closed_cons rfl) (closed_cons rfl) h).2
          simp at hEnds
      | dotted first' others' tail' =>
          rw [word_dotted, word_dotted] at h
          simp only [List.cons_append, List.append_assoc, List.cons.injEq, true_and] at h
          obtain ⟨hItems, hTail⟩ := words_append_inj hCut (closed_cons rfl) (closed_cons rfl) h
          obtain ⟨rfl, rfl⟩ := List.cons.inj hItems
          obtain ⟨rfl, hRest⟩ := ihTail (List.cons.inj hTail).2
          exact ⟨rfl, by simpa using hRest⟩
      | quoted => simp [word] at h
  | quoted operator form ih =>
      cases derivation' with
      | atom token' isAtom' =>
          obtain ⟨rfl, -⟩ := List.cons.inj h
          cases isAtom'
      | list | dotted => simp [word] at h
      | quoted operator' form' =>
          simp only [word, List.cons_append, List.cons.injEq, Token.quotePrefix.injEq] at h
          obtain ⟨rfl, hForm⟩ := h
          obtain ⟨rfl, hRest⟩ := ih hForm
          exact ⟨rfl, hRest⟩

/-- Tokens are derived in at most one way. -/
theorem words_injective : Function.Injective words := by
  intro derivations derivations' h
  have hEmpty : words derivations ++ [] = words derivations' ++ [] := by rw [h]
  exact (words_append_inj (fun _ _ _ _ _ => word_append_inj) closed_nil closed_nil hEmpty).1

/-- A word holds no comment. -/
theorem isComment_of_mem_word (derivation : Derivation) :
    ∀ token ∈ derivation.word, token.isComment = false := by
  have hWords : ∀ items : List Derivation,
      (∀ item ∈ items, ∀ token ∈ item.word, token.isComment = false) →
        ∀ token ∈ words items, token.isComment = false := by
    intro items hItems token hToken
    induction items with
    | nil => simp [words] at hToken
    | cons item others ih => grind [words]
  induction derivation using induct with
  | atom token isAtom =>
      intro other hOther
      obtain rfl := List.mem_singleton.mp hOther
      cases other <;> first | rfl | cases isAtom
  | list items ih => grind [word, Token.isComment]
  | dotted first others tail ihItems ihTail =>
      rw [word_dotted]
      grind [Token.isComment]
  | quoted operator form ih => grind [word, Token.isComment]

end Derivation

end LispReader
