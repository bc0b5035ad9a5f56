import LispReader.Proofs.Reader.Grammar

/-!
Reading the only form of a text. Lexemes are taken until no frame is open. For the word of a
derivation that is not before its last lexeme, since the tokens up to there would be derived
themselves, and a word is cut off in one way only.
-/

namespace LispReader

open LispReader.Derivation (words)

variable {nesting : Nesting}

namespace Assembly

/-- Feeding takes all lexemes, if there is not enough before the last one. -/
theorem feed_eq_of_run {enough : Assembly → Bool} {assembly last : Assembly} {spans : List Span}
    (hRun : assembly.run nesting spans = .ok last)
    (hEnough : ∀ before after next, spans = before ++ after → before ≠ [] →
      assembly.run nesting before = .ok next → enough next = true → after = []) :
    assembly.feed nesting enough spans = { assembly := last, pending := [] } := by
  induction spans generalizing assembly with
  | nil =>
      cases hRun
      rfl
  | cons span spans ih =>
      obtain ⟨next, hAccept, hRest⟩ := run_cons_eq_ok_iff.mp hRun
      have hOne : assembly.run nesting [span] = .ok next :=
        run_cons_eq_ok_iff.mpr ⟨next, hAccept, rfl⟩
      rw [feed_cons, hAccept]
      simp only
      split
      · next hStop =>
          obtain rfl : spans = [] := hEnough [span] spans next rfl (by simp) hOne hStop
          cases hRest
          rfl
      · refine ih hRest ?_
        intro before after later hSpans _ hBefore hStop
        have hLonger : assembly.run nesting (span :: before) = .ok later :=
          run_cons_eq_ok_iff.mpr ⟨next, hAccept, hBefore⟩
        exact hEnough (span :: before) after later (by rw [hSpans]; rfl) (by simp) hLonger hStop

end Assembly

/-- The frames are not all closed before the last lexeme of a word. -/
theorem eq_nil_of_run_closed {derivation : Derivation} {before after : List Span}
    (hBase : nesting.Allows 0) (hTokens : Classified (before ++ after) derivation.word)
    (hSome : before ≠ []) {next : Assembly}
    (hRun : Assembly.empty.run nesting before = .ok next) (hClosed : next.frames = []) :
    after = [] := by
  have hFirst : Classified before (derivation.word.take before.length) := by
    simpa [Classified] using List.forall₂_take before.length hTokens
  have hSecond : Classified after (derivation.word.drop before.length) := by
    simpa [Classified] using List.forall₂_drop before.length hTokens
  obtain ⟨derivations, hWords, -, -⟩ :=
    exists_derivations_of_run hBase hFirst hRun hClosed
  have hPlain : withoutComments (derivation.word.take before.length) =
      derivation.word.take before.length := by
    refine List.filter_eq_self.mpr ?_
    intro token hToken
    rw [derivation.isComment_of_mem_word token (List.mem_of_mem_take hToken)]
    rfl
  rw [hPlain] at hWords
  cases derivations with
  | nil =>
      rw [← hWords] at hFirst
      exact absurd (Classified.nil_right_iff.mp hFirst) hSome
  | cons first others =>
      have hWord : derivation.word ++ [] =
          first.word ++ (words others ++ derivation.word.drop before.length) := by
        rw [words] at hWords
        rw [← List.append_assoc, hWords, List.take_append_drop, List.append_nil]
      have hRest := (Derivation.word_append_inj hWord).2
      rw [(List.append_eq_nil_iff.mp hRest.symm).2] at hSecond
      exact Classified.nil_right_iff.mp hSecond

/-- Feeding until no frame is open takes the word of a derivation and hands over its form. -/
theorem feed_word (nesting : Nesting) {derivation : Derivation} {spans : List Span}
    (hTokens : Classified spans derivation.word) (fits : nesting.Allows derivation.depth) :
    Assembly.empty.feed nesting (fun assembly => assembly.frames.isEmpty) spans =
      { assembly := ⟨[], [derivation.value]⟩, pending := [] } := by
  have hBase : nesting.Allows 0 := fits.mono (Nat.zero_le _)
  refine Assembly.feed_eq_of_run (handsOver nesting derivation spans [] [] hTokens takesForm_nil
    (by simpa using fits)) ?_
  rintro before after next rfl hSome hRun hStop
  exact eq_nil_of_run_closed hBase hTokens hSome hRun (by simpa using hStop)

/-- What has been looked at is fed first. -/
theorem Reader.drive_eq_feed {reader : Reader} {token : Form} {span : Span}
    (hHeld : reader.held = some (token, span)) (hToken : span.classify = .ok token)
    (enough : Assembly → Bool) :
    reader.drive enough =
      Assembly.empty.feed reader.nesting enough (span :: reader.pending) := by
  cases hAccept : Assembly.empty.accept reader.nesting token span with
  | error refusal | ok next =>
      simp only [Reader.drive_def, hHeld, Assembly.feed_cons, Assembly.acceptSpan,
        Assembly.acceptMeaning, hToken, hAccept]

/-- The only form of a text is found, if its lexemes are the word of a derivation that nests no
deeper than is allowed. -/
theorem readForm_of_word {text : List Char} {derivation : Derivation}
    (hTokens : Classified (scan text) derivation.word)
    (fits : derivation.depth ≤ Reader.defaultMaxDepth) :
    readForm text = .ok derivation.value := by
  obtain ⟨token, rest, hWord, -⟩ := derivation.exists_word_eq_cons
  have hFeed := feed_word { base := 0, limit := Reader.defaultMaxDepth } hTokens
    (by simpa [Nesting.Allows] using fits)
  rw [hWord] at hTokens
  obtain ⟨span, others, hToken, -, hScan⟩ := Classified.cons_right_iff.mp hTokens
  rw [hScan] at hFeed
  have hComment : token.isComment = false :=
    derivation.isComment_of_mem_word token (by simp [hWord])
  let reader : Reader := { Reader.ofText text false Reader.defaultMaxDepth with
    pending := others, held := some (token, span), reached := span.stop.toNat }
  have hSkip : (Reader.ofText text false Reader.defaultMaxDepth).skipComments =
      (.ok (), reader) := by
    simp [reader, Reader.skipComments_def, Reader.ofText, hScan, Reader.skipCommentsIn_cons, hToken,
      hComment]
  have hRead : reader.readForm = (.ok derivation.value,
      reader.after { assembly := ⟨[], [derivation.value]⟩, pending := [] }) := by
    have hDrive := reader.drive_eq_feed rfl hToken fun assembly => assembly.frames.isEmpty
    have hNesting : reader.nesting = { base := 0, limit := Reader.defaultMaxDepth } := rfl
    rw [Reader.readForm_def, hDrive, hNesting, hFeed]
    rfl
  unfold readForm Reader.readSingle
  rw [hSkip]
  have hEof : reader.eof = (.ok false, reader) := rfl
  simp only [hEof, hRead]
  rfl

end LispReader
