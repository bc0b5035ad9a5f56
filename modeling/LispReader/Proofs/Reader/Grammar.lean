import LispReader.Proofs.Reader.Comment
import LispReader.Proofs.Reader.Derivation

/-!
Reading and the grammar of forms. An assembly stands for derivations of what is finished and for
the beginnings of derivations in its frames; every step keeps it so, and where no frame is left
the tokens are derived. The other way round, a run over the word of a derivation hands over its
form. Comments are no part of a word, and a run passes over them.
-/

namespace LispReader

open LispReader.Derivation (words values depths)

variable {nesting : Nesting}

/-- The tokens that frames have taken, outermost frame first. Every level that is open or was
finished inside of a frame is one that is allowed. -/
inductive Spells (nesting : Nesting) : List Frame → List Form → Prop where
  | nil : Spells nesting [] []
  | list {outer : List Frame} {word : List Form} {opening : Span} {items : List Derivation}
      (prior : Spells nesting outer word) (takes : TakesForm outer)
      (fits : nesting.Allows (outer.length + (depths items + 1))) :
      Spells nesting (.list opening (values items).reverse :: outer)
        (word ++ .listStart :: words items)
  | dotted {outer : List Frame} {word : List Form} {opening dot : Span} {first : Derivation}
      {others : List Derivation} (prior : Spells nesting outer word) (takes : TakesForm outer)
      (fits : nesting.Allows (outer.length + (depths (first :: others) + 1))) :
      Spells nesting (.dotted opening dot (values (first :: others)).reverse :: outer)
        (word ++ .listStart :: (words (first :: others) ++ [.dot]))
  | closing {outer : List Frame} {word : List Form} {opening : Span} {first : Derivation}
      {others : List Derivation} {tail : Derivation} (prior : Spells nesting outer word)
      (takes : TakesForm outer)
      (fits : nesting.Allows
        (outer.length + (max (depths (first :: others)) tail.depth + 1))) :
      Spells nesting (.closing opening (values (first :: others)).reverse tail.value :: outer)
        (word ++ .listStart :: (words (first :: others) ++ .dot :: tail.word))
  | quote {outer : List Frame} {word : List Form} {mark : Span} {operator : Value}
      (prior : Spells nesting outer word) (takes : TakesForm outer)
      (fits : nesting.Allows (outer.length + 1)) :
      Spells nesting (.quote mark operator :: outer) (word ++ [.quotePrefix operator])

theorem Spells.allows_length {frames : List Frame} {word : List Form}
    (h : Spells nesting frames word) (hBase : nesting.Allows 0) :
    nesting.Allows frames.length := by
  cases h with
  | nil => exact hBase
  | list _ _ fits | dotted _ _ fits | closing _ _ fits | quote _ _ fits =>
      exact fits.mono (by simp)

theorem isComment_value (derivation : Derivation) : derivation.value.isComment = false := by
  cases derivation with
  | atom token isAtom => cases token <;> first | rfl | cases isAtom
  | list items => cases items <;> rfl
  | dotted | quoted => rfl

theorem withoutComments_values (derivations : List Derivation) :
    withoutComments (values derivations) = values derivations := by
  induction derivations with
  | nil => rfl
  | cons derivation others ih =>
      rw [values, withoutComments_cons (isComment_value derivation), ih]

/-- Tokens are accounted for by an assembly: some are derived already, and its frames have taken
the others. -/
def Parses (nesting : Nesting) (tokens : List Form) (assembly : Assembly) : Prop :=
  ∃ derivations word, withoutComments assembly.forms = (values derivations).reverse ∧
    nesting.Allows (depths derivations) ∧ Spells nesting assembly.frames word ∧
    withoutComments tokens = words derivations ++ word

/-- A finished derivation is accounted for where its form is delivered. -/
theorem Spells.deliver {frames : List Frame} {word forms : List Form}
    {derivations : List Derivation} {derivation : Derivation} (h : Spells nesting frames word)
    (takes : TakesForm frames)
    (hForms : withoutComments forms = (values derivations).reverse)
    (hDepths : nesting.Allows (depths derivations))
    (fits : nesting.Allows (frames.length + derivation.depth)) {tokens : List Form}
    (hTokens : withoutComments tokens = words derivations ++ (word ++ derivation.word)) :
    Parses nesting tokens (Assembly.deliver forms derivation.value frames) := by
  induction h generalizing derivation with
  | nil =>
      refine ⟨derivations ++ [derivation], [], ?_, ?_, .nil, ?_⟩
      · simpa [Assembly.deliver, withoutComments, List.filter_cons, isComment_value, values]
          using hForms
      · simp only [Nesting.Allows, Derivation.depths_append, depths] at *
        omega
      · simpa [words] using hTokens
  | @list outer word opening items prior takes' fits' ih =>
      have hItems : Spells nesting (.list opening (values (items ++ [derivation])).reverse :: outer)
          (word ++ .listStart :: words (items ++ [derivation])) := by
        refine .list prior takes' ?_
        simp only [Nesting.Allows, Derivation.depths_append, depths, List.length_cons] at *
        omega
      rw [Derivation.values_append, List.reverse_append] at hItems
      exact ⟨derivations, _, hForms, hDepths, hItems, by simpa [words] using hTokens⟩
  | @dotted outer word opening dot first others prior takes' fits' ih =>
      have hTail : Spells nesting
          (.closing opening (values (first :: others)).reverse derivation.value :: outer)
          (word ++ .listStart :: (words (first :: others) ++ .dot :: derivation.word)) := by
        refine .closing prior takes' ?_
        simp only [Nesting.Allows, List.length_cons] at *
        omega
      exact ⟨derivations, _, hForms, hDepths, hTail, by simpa using hTokens⟩
  | closing => simp [TakesForm, Frame.takesForm] at takes
  | @quote outer word mark operator prior takes' fits' ih =>
      have hQuoted :
          nesting.Allows (outer.length + (Derivation.quoted operator derivation).depth) := by
        simp only [Nesting.Allows, Derivation.depth, List.length_cons] at *
        omega
      have hWord : withoutComments tokens =
          words derivations ++ (word ++ (Derivation.quoted operator derivation).word) := by
        simpa [Derivation.word] using hTokens
      exact ih takes' hQuoted hWord

/-- Every step keeps the account of the tokens. -/
theorem Parses.step {tokens : List Form} {assembly next : Assembly} {token : Form} {span : Span}
    (hBase : nesting.Allows 0) (h : Parses nesting tokens assembly)
    (step : Assembly.Step nesting assembly token span next) :
    Parses nesting (tokens ++ [token]) next := by
  obtain ⟨derivations, word, hForms, hDepths, hSpells, hTokens⟩ := h
  have hSame : token.isComment = true →
      withoutComments (tokens ++ [token]) = words derivations ++ word := by
    intro hToken
    rw [withoutComments_append, hTokens]
    simp [withoutComments, hToken]
  have hMore : token.isComment = false →
      withoutComments (tokens ++ [token]) = words derivations ++ (word ++ [token]) := by
    intro hToken
    rw [withoutComments_append, hTokens, List.append_assoc]
    simp [withoutComments, hToken]
  cases step with
  | keepComment | dropComment =>
      exact ⟨derivations, word, hForms, hDepths, hSpells, hSame rfl⟩
  | @atom frames forms _ _ takes isAtom =>
      have hComment : token.isComment = false := isComment_value (.atom token isAtom)
      have hFits : nesting.Allows (frames.length + (Derivation.atom token isAtom).depth) :=
        hSpells.allows_length hBase
      exact hSpells.deliver takes hForms hDepths hFits (hMore hComment)
  | @openList frames forms span takes fits =>
      have hOpen : Spells nesting (.list span (values []).reverse :: frames)
          (word ++ .listStart :: words []) := .list hSpells takes fits
      exact ⟨derivations, _, hForms, hDepths, hOpen, hMore rfl⟩
  | openQuote takes fits =>
      exact ⟨derivations, _, hForms, hDepths, .quote hSpells takes fits, hMore rfl⟩
  | @dot opening items outer forms _ nonempty =>
      cases hSpells with
      | @list _ word _ items prior takes fits =>
          cases items with
          | nil => exact absurd rfl nonempty
          | cons first others =>
              exact ⟨derivations, _, hForms, hDepths, .dotted prior takes fits,
                by simpa using hMore rfl⟩
  | @closeList _ _ outer _ _ =>
      cases hSpells with
      | @list _ word _ items prior takes fits =>
          have hList : (Derivation.list items).value =
              .properList (values items).reverse.reverse := by
            rw [List.reverse_reverse]
            rfl
          have hFits : nesting.Allows (outer.length + (Derivation.list items).depth) := fits
          have hWord : withoutComments (tokens ++ [.listEnd]) =
              words derivations ++ (word ++ (Derivation.list items).word) := by
            simpa [Derivation.word] using hMore rfl
          exact hList ▸ prior.deliver takes hForms hDepths hFits hWord
  | closeDotted =>
      cases hSpells with
      | @closing outer word _ first others tail prior takes fits =>
          have hDotted : (Derivation.dotted first others tail).value =
              .chain (values (first :: others)).reverse.reverse tail.value := by
            rw [List.reverse_reverse, Derivation.value_dotted]
          have hWord : withoutComments (tokens ++ [.listEnd]) =
              words derivations ++ (word ++ (Derivation.dotted first others tail).word) := by
            rw [Derivation.word_dotted]
            simpa using hMore rfl
          rw [← Derivation.depth_dotted] at fits
          exact hDotted ▸ prior.deliver takes hForms hDepths fits hWord

/-- The tokens of a run that ends outside of all frames are derived, comments apart, and what is
finished are the forms of the derivations. -/
theorem exists_derivations_of_run {spans : List Span} {tokens : List Form} {assembly : Assembly}
    (hBase : nesting.Allows 0) (hTokens : Classified spans tokens)
    (hRun : Assembly.empty.run nesting spans = .ok assembly) (hClosed : assembly.frames = []) :
    ∃ derivations, words derivations = withoutComments tokens ∧
      nesting.Allows (depths derivations) ∧
      withoutComments assembly.forms = (values derivations).reverse := by
  have hStart : Parses nesting [] Assembly.empty := ⟨[], [], rfl, hBase, .nil, rfl⟩
  have hParses : Parses nesting ([] ++ tokens) assembly :=
    Assembly.run_induction (fun _ _ _ _ _ h step => h.step hBase step) hStart hTokens hRun
  obtain ⟨derivations, word, hForms, hDepths, hSpells, hWord⟩ := hParses
  rw [hClosed] at hSpells
  cases hSpells
  exact ⟨derivations, by simpa using hWord.symm, hDepths, hForms⟩

/-- A run over the word of a derivation does no more than to hand its form over, wherever a form
may begin and enough levels are left. -/
def HandsOver (nesting : Nesting) (derivation : Derivation) : Prop :=
  ∀ spans frames forms, Classified spans derivation.word → TakesForm frames →
    nesting.Allows (frames.length + derivation.depth) →
      Assembly.run nesting ⟨frames, forms⟩ spans =
        .ok (Assembly.deliver forms derivation.value frames)

/-- Forms are handed over one by one to an assembly that collects them, at the outside or in a
list. What it has collected is given latest first. -/
theorem run_words (state : List Form → Assembly) {levels : Nat}
    (hDeliver : ∀ form done,
      Assembly.deliver (state done).forms form (state done).frames = state (form :: done))
    (hTakes : ∀ done, TakesForm (state done).frames)
    (hLevels : ∀ done, (state done).frames.length = levels) {derivations : List Derivation}
    (hEach : ∀ derivation ∈ derivations, HandsOver nesting derivation) {spans : List Span}
    (hTokens : Classified spans (words derivations))
    (fits : nesting.Allows (levels + depths derivations)) (done : List Form) :
    (state done).run nesting spans = .ok (state ((values derivations).reverse ++ done)) := by
  induction derivations generalizing spans done with
  | nil =>
      rw [words, Classified.nil_right_iff] at hTokens
      rw [hTokens]
      rfl
  | cons derivation others ih =>
      rw [words, Classified.append_right_iff] at hTokens
      obtain ⟨before, after, hFirst, hOthers, rfl⟩ := hTokens
      have hFits : nesting.Allows ((state done).frames.length + derivation.depth) := by
        rw [hLevels]
        exact fits.mono (by simp only [depths]; omega)
      have hStep :=
        hEach derivation (by simp) before _ (state done).forms hFirst (hTakes done) hFits
      rw [hDeliver] at hStep
      rw [Assembly.run_append_of_eq_ok hStep,
        ih (fun d hd => hEach d (by simp [hd])) hOthers
          (fits.mono (by simp only [depths]; omega))]
      simp [values]

theorem run_items {items : List Derivation} (hEach : ∀ item ∈ items, HandsOver nesting item)
    {spans : List Span} (hTokens : Classified spans (words items)) {outer : List Frame}
    (fits : nesting.Allows (outer.length + 1 + depths items)) (opening : Span)
    (forms : List Form) :
    Assembly.run nesting ⟨.list opening [] :: outer, forms⟩ spans =
      .ok ⟨.list opening (values items).reverse :: outer, forms⟩ := by
  have hRun := run_words (fun done => ⟨.list opening done :: outer, forms⟩)
    (fun _ _ => rfl) (fun _ => takesForm_cons.mpr rfl) (fun _ => rfl) hEach hTokens fits []
  rwa [List.append_nil] at hRun

theorem handsOver (nesting : Nesting) (derivation : Derivation) :
    HandsOver nesting derivation := by
  induction derivation using Derivation.induct with
  | atom token isAtom =>
      intro spans frames forms hTokens takes fits
      rw [Derivation.word, Classified.cons_right_iff] at hTokens
      obtain ⟨span, others, hToken, hOthers, rfl⟩ := hTokens
      rw [Classified.nil_right_iff] at hOthers
      rw [hOthers, Assembly.run_cons_of_step hToken (.atom takes isAtom)]
      rfl
  | list items ih =>
      intro spans frames forms hTokens takes fits
      rw [Derivation.word, Classified.cons_right_iff] at hTokens
      obtain ⟨opening, others, hOpening, hOthers, rfl⟩ := hTokens
      obtain ⟨inner, ending, hInner, hEnding, rfl⟩ := Classified.append_right_iff.mp hOthers
      obtain ⟨close, rest, hClose, hRest, rfl⟩ := Classified.cons_right_iff.mp hEnding
      rw [Classified.nil_right_iff] at hRest
      have hOpen : nesting.Allows (frames.length + 1) := fits.mono (by simp [Derivation.depth])
      have hItems : nesting.Allows (frames.length + 1 + depths items) :=
        fits.mono (by simp [Derivation.depth]; omega)
      rw [Assembly.run_cons_of_step hOpening (.openList takes hOpen),
        Assembly.run_append_of_eq_ok (run_items ih hInner hItems opening forms),
        Assembly.run_cons_of_step hClose .closeList, hRest, List.reverse_reverse]
      rfl
  | dotted first others tail ihItems ihTail =>
      intro spans frames forms hTokens takes fits
      rw [Derivation.depth_dotted] at fits
      rw [Derivation.word_dotted, Classified.cons_right_iff] at hTokens
      obtain ⟨opening, behind, hOpening, hBehind, rfl⟩ := hTokens
      obtain ⟨inner, dotted, hInner, hDotted, rfl⟩ := Classified.append_right_iff.mp hBehind
      obtain ⟨dot, ending, hDot, hEnding, rfl⟩ := Classified.cons_right_iff.mp hDotted
      obtain ⟨last, closing, hLast, hClosing, rfl⟩ := Classified.append_right_iff.mp hEnding
      obtain ⟨close, rest, hClose, hRest, rfl⟩ := Classified.cons_right_iff.mp hClosing
      rw [Classified.nil_right_iff] at hRest
      have hOpen : nesting.Allows (frames.length + 1) := fits.mono (by omega)
      have hItems : nesting.Allows (frames.length + 1 + depths (first :: others)) :=
        fits.mono (by omega)
      have hSome : (values (first :: others)).reverse ≠ [] := by simp [values]
      rw [Assembly.run_cons_of_step hOpening (.openList takes hOpen),
        Assembly.run_append_of_eq_ok (run_items ihItems hInner hItems opening forms),
        Assembly.run_cons_of_step hDot (.dot hSome),
        Assembly.run_append_of_eq_ok (ihTail last _ forms hLast (takesForm_cons.mpr rfl)
          (fits.mono (by simp; omega))),
        Assembly.deliver, Assembly.run_cons_of_step hClose .closeDotted, hRest,
        List.reverse_reverse, Derivation.value_dotted]
      rfl
  | quoted operator form ih =>
      intro spans frames forms hTokens takes fits
      rw [Derivation.word, Classified.cons_right_iff] at hTokens
      obtain ⟨mark, others, hMark, hOthers, rfl⟩ := hTokens
      have hOpen : nesting.Allows (frames.length + 1) := fits.mono (by simp [Derivation.depth])
      rw [Assembly.run_cons_of_step hMark (.openQuote takes hOpen),
        ih others _ forms hOthers (takesForm_cons.mpr rfl)
          (fits.mono (by simp [Derivation.depth]; omega))]
      rfl

/-- A run over the words of derivations ends with their forms, outside of all frames. -/
theorem run_of_words {derivations : List Derivation} {spans : List Span}
    (hTokens : Classified spans (words derivations))
    (fits : nesting.Allows (depths derivations)) :
    Assembly.empty.run nesting spans = .ok ⟨[], (values derivations).reverse⟩ := by
  have hRun := run_words (fun done => ⟨[], done⟩) (fun _ _ => rfl)
    (fun _ => takesForm_nil) (fun _ => rfl) (fun derivation _ => handsOver nesting derivation)
    hTokens (by simpa using fits) []
  rwa [List.append_nil] at hRun

/-- A text that is read has a token for every lexeme. -/
theorem exists_classified_of_run {spans : List Span} {start last : Assembly}
    (h : start.run nesting spans = .ok last) : ∃ tokens, Classified spans tokens := by
  induction spans generalizing start with
  | nil => exact ⟨[], .nil⟩
  | cons span spans ih =>
      obtain ⟨next, hAccept, hRest⟩ := Assembly.run_cons_eq_ok_iff.mp h
      obtain ⟨token, hToken, -⟩ := Assembly.acceptSpan_eq_ok_iff.mp hAccept
      obtain ⟨tokens, hTokens⟩ := ih hRest
      exact ⟨token :: tokens, .cons hToken hTokens⟩

/-- Reading finds the forms of a text whenever its lexemes have tokens, and these are the words of
derivations that nest no deeper than is allowed. No other derivations have the same words. -/
theorem readText_eq_ok_iff_derivation (text : List Char) (maxDepth : Nat) (forms : List Form) :
    readText text false maxDepth = .ok forms ↔
      ∃ tokens, Classified (scan text) tokens ∧
        ∃ derivations, words derivations = withoutComments tokens ∧
          depths derivations ≤ maxDepth ∧ values derivations = forms ∧
          ∀ others, words others = withoutComments tokens → others = derivations := by
  have hAllows : ∀ levels : Nat,
      Nesting.Allows { base := 0, limit := maxDepth } levels ↔ levels ≤ maxDepth := by
    intro levels
    simp [Nesting.Allows]
  rw [readText_eq_ok_iff]
  constructor
  · rintro ⟨assembly, hRun, hClosed, hForms⟩
    obtain ⟨tokens, hTokens⟩ := exists_classified_of_run hRun
    obtain ⟨derivations, hWords, hDepths, hValues⟩ :=
      exists_derivations_of_run ((hAllows 0).mpr (Nat.zero_le _)) hTokens hRun hClosed
    refine ⟨tokens, hTokens, derivations, hWords, (hAllows _).mp hDepths, ?_, ?_⟩
    · calc
        values derivations = withoutComments assembly.forms.reverse := by
          rw [withoutComments_reverse, hValues, List.reverse_reverse]
        _ = forms := by simpa [withoutComments] using hForms
    · intro others hOthers
      exact Derivation.words_injective (hOthers.trans hWords.symm)
  · rintro ⟨tokens, hTokens, derivations, hWords, hDepths, rfl, -⟩
    obtain ⟨spans, hSpans, hAlike⟩ :=
      hTokens.exists_run_withoutComments { base := 0, limit := maxDepth }
    rw [← hWords] at hSpans
    rw [run_of_words hSpans ((hAllows _).mpr hDepths)] at hAlike
    generalize hRun : Assembly.empty.run _ (scan text) = outcome at hAlike
    cases hAlike with
    | @ok assembly _ hSimilar =>
        refine ⟨assembly, rfl, List.forall₂_nil_right_iff.mp hSimilar.frames, ?_⟩
        have hForms : withoutComments assembly.forms =
            withoutComments (values derivations).reverse := hSimilar.forms
        calc
          assembly.forms.reverse.filter (fun form => false || !form.isComment) =
              withoutComments assembly.forms.reverse := by simp [withoutComments]
          _ = withoutComments (values derivations) := by
            rw [withoutComments_reverse, hForms, ← withoutComments_reverse, List.reverse_reverse]
          _ = values derivations := withoutComments_values derivations

end LispReader
