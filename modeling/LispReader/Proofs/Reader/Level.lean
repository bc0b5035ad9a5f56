import LispReader.Proofs.Reader.Grammar

/-!
Levels of nesting, and what the greatest number of them decides. The tokens in front of a lexeme say
which lists and quote marks are open there, and a run keeps just these as its frames. So a limit
does nothing but cut a text off: with a smaller one a text is read in the same way, or reading stops
at the first lexeme that opens a level too many.
-/

namespace LispReader

/-- What may be open. -/
inductive Opening where
  | list
  | mark
  deriving Repr, DecidableEq

namespace Opening

/-- What a finished form leaves open: it finishes the quote marks in front of it. -/
def finish : List Opening → List Opening
  | .mark :: outer => finish outer
  | openings => openings

/-- What is open behind a token, innermost first. -/
def after (openings : List Opening) (token : Form) : List Opening :=
  match token with
  | .listStart => .list :: openings
  | .quotePrefix _ => .mark :: openings
  | .listEnd => finish openings.tail
  | .dot | .comment _ _ => openings
  | _ => finish openings

/-- What is open behind tokens. -/
def ofTokens (tokens : List Form) : List Opening :=
  tokens.foldl after []

theorem ofTokens_concat (tokens : List Form) (token : Form) :
    ofTokens (tokens ++ [token]) = after (ofTokens tokens) token := by
  simp [ofTokens]

theorem after_of_isAtom {token : Form} (h : token.isStructural = false)
    (openings : List Opening) : after openings token = finish openings := by
  cases token <;> first | rfl | cases h

theorem length_finish_le (openings : List Opening) :
    (finish openings).length ≤ openings.length := by
  fun_induction finish openings with
  | case1 outer ih => exact Nat.le_succ_of_le ih
  | case2 => exact Nat.le_refl _

/-- Comments open nothing and finish nothing. -/
theorem ofTokens_comments_append {comments : List Form}
    (h : ∀ comment ∈ comments, comment.isComment = true) (tokens : List Form) :
    ofTokens (comments ++ tokens) = ofTokens tokens := by
  induction comments with
  | nil => rfl
  | cons comment comments ih =>
      obtain ⟨hComment, hOthers⟩ := List.forall_mem_cons.mp h
      cases comment with
      | comment depth text => exact ih hOthers
      | _ => cases hComment

end Opening

/-- Whether a token opens a level. -/
def Token.opens : Form → Bool
  | .listStart | .quotePrefix _ => true
  | _ => false

theorem opens_eq_false_of_isAtom {token : Form} (h : token.isStructural = false) :
    Token.opens token = false := by
  cases token <;> first | rfl | cases h

theorem Opening.length_after_of_opens {token : Form} (h : token.opens = true)
    (openings : List Opening) : (after openings token).length = openings.length + 1 := by
  cases token <;> first | rfl | cases h

/-- Behind some spans, a span opens a list or a quote mark at a level. The outermost level is
one. -/
def OpensLevel (level : Nat) (before : List Span) (span : Span) : Prop :=
  ∃ tokens token, Classified before tokens ∧ span.classify = .ok token ∧ token.opens = true ∧
    (Opening.ofTokens tokens).length + 1 = level

/-- The first of some spans that opens a level. -/
def FirstToOpen (level : Nat) (spans : List Span) (span : Span) : Prop :=
  ∃ before behind, spans = before ++ span :: behind ∧ OpensLevel level before span ∧
    ∀ earlier other between, before = earlier ++ other :: between → ¬ OpensLevel level earlier other

theorem Nesting.allows_iff_le {maxDepth levels : Nat} :
    Nesting.Allows ⟨0, maxDepth⟩ levels ↔ levels ≤ maxDepth := by
  simp [Nesting.Allows]

namespace Frame

def opening : Frame → Opening
  | .list _ _ | .dotted _ _ _ | .closing _ _ _ => .list
  | .quote _ _ => .mark

end Frame

namespace Assembly

theorem map_opening_deliver (forms : List Form) (form : Form) (frames : List Frame) :
    (deliver forms form frames).frames.map Frame.opening =
      Opening.finish (frames.map Frame.opening) := by
  induction frames generalizing form with
  | nil => rfl
  | cons frame outer ih =>
      cases frame with
      | quote mark operator => exact ih _
      | _ => rfl

/-- What is open is what the frames stand for, and it is no more than is allowed. -/
structure Follows (nesting : Nesting) (tokens : List Form) (assembly : Assembly) : Prop where
  frames : assembly.frames.map Frame.opening = Opening.ofTokens tokens
  allowed : nesting.Allows assembly.frames.length

theorem follows_empty (maxDepth : Nat) : Follows ⟨0, maxDepth⟩ [] empty :=
  ⟨rfl, Nesting.allows_iff_le.mpr (Nat.zero_le _)⟩

theorem Follows.length_eq {nesting : Nesting} {tokens : List Form} {assembly : Assembly}
    (h : Follows nesting tokens assembly) :
    (Opening.ofTokens tokens).length = assembly.frames.length := by
  rw [← h.frames, List.length_map]

variable {nesting : Nesting}

theorem length_frames_deliver_le (forms : List Form) (form : Form) (frames : List Frame) :
    (deliver forms form frames).frames.length ≤ frames.length := by
  have hFinish := Opening.length_finish_le (frames.map Frame.opening)
  rwa [← map_opening_deliver forms form, List.length_map, List.length_map] at hFinish

/-- What a step leaves open is decided by its token. -/
theorem Step.map_opening {assembly next : Assembly} {token : Form} {span : Span}
    (step : Step nesting assembly token span next) :
    next.frames.map Frame.opening =
      Opening.after (assembly.frames.map Frame.opening) token := by
  cases step with
  | keepComment | dropComment | openList | openQuote | dot => rfl
  | atom takes isAtom => rw [map_opening_deliver, Opening.after_of_isAtom isAtom]
  | closeList | closeDotted => exact map_opening_deliver _ _ _

/-- A step opens no level that is not allowed. -/
theorem Step.allows {assembly next : Assembly} {token : Form} {span : Span}
    (step : Step nesting assembly token span next)
    (hAllowed : nesting.Allows assembly.frames.length) : nesting.Allows next.frames.length := by
  cases step with
  | keepComment | dropComment | dot => exact hAllowed
  | openList _ fits | openQuote _ fits => exact fits
  | atom => exact hAllowed.mono (length_frames_deliver_le _ _ _)
  | closeList | closeDotted =>
      exact hAllowed.mono (Nat.le_succ_of_le (length_frames_deliver_le _ _ _))

/-- A step keeps the frames in line with what its tokens have opened. -/
theorem Follows.step {tokens : List Form} {assembly next : Assembly} {token : Form} {span : Span}
    (h : Follows nesting tokens assembly) (step : Step nesting assembly token span next) :
    Follows nesting (tokens ++ [token]) next where
  frames := by rw [Opening.ofTokens_concat, ← h.frames, step.map_opening]
  allowed := step.allows h.allowed

theorem Follows.run {spans : List Span} {before tokens : List Form} {start last : Assembly}
    (h : Follows nesting before start) (hTokens : Classified spans tokens)
    (hRun : start.run nesting spans = .ok last) : Follows nesting (before ++ tokens) last :=
  run_induction (fun _ _ _ _ _ => Follows.step) h hTokens hRun

/-- A token that opens a level is taken only if the level is allowed. -/
theorem allows_of_opens {assembly next : Assembly} {token : Form} {span : Span}
    (hOpens : token.opens = true) (step : Step nesting assembly token span next) :
    nesting.Allows (assembly.frames.length + 1) := by
  cases step with
  | openList _ fits | openQuote _ fits => exact fits
  | atom _ isAtom =>
      rw [opens_eq_false_of_isAtom isAtom] at hOpens
      cases hOpens
  | keepComment | dropComment | dot | closeList | closeDotted => cases hOpens

end Assembly

/-- The refusal of a span that opens a level beyond a limit. -/
def Refusal.tooDeep (limit : Int) (span : Span) : Refusal :=
  { error := (StructureFault.tooDeep limit).atSpan span, opened := 1 }

namespace Assembly

variable {base : Nat} {limit limit' : Int}

theorem enter_eq_or_tooDeep (hLe : limit ≤ limit') (assembly : Assembly) (frame : Frame)
    (span : Span) :
    assembly.enter ⟨base, limit⟩ frame span = assembly.enter ⟨base, limit'⟩ frame span ∨
      (¬ Nesting.Allows ⟨base, limit⟩ (assembly.frames.length + 1) ∧
        assembly.enter ⟨base, limit⟩ frame span = .error (.tooDeep limit span)) := by
  unfold enter Nesting.Allows
  by_cases hOver : limit < base + assembly.frames.length + 1
  · refine .inr ⟨by simp only; omega, ?_⟩
    rw [if_pos hOver]
    rfl
  · refine .inl ?_
    rw [if_neg hOver, if_neg (by simp only; omega)]

theorem acceptForm_eq_or_tooDeep (base : Nat) (hLe : limit ≤ limit') (assembly : Assembly)
    (token : Form) (span : Span) :
    assembly.acceptForm ⟨base, limit⟩ token span = assembly.acceptForm ⟨base, limit'⟩ token span ∨
      (token.opens = true ∧ ¬ Nesting.Allows ⟨base, limit⟩ (assembly.frames.length + 1) ∧
        assembly.acceptForm ⟨base, limit⟩ token span = .error (.tooDeep limit span)) := by
  cases token with
  | listStart => exact (enter_eq_or_tooDeep hLe assembly _ span).imp_right fun h => ⟨rfl, h⟩
  | quotePrefix operator =>
      exact (enter_eq_or_tooDeep hLe assembly _ span).imp_right fun h => ⟨rfl, h⟩
  | _ => exact .inl rfl

/-- What is done with a token depends on the limit only if the token opens a level beyond it. -/
theorem accept_eq_or_tooDeep (base : Nat) (hLe : limit ≤ limit') (assembly : Assembly)
    (token : Form) (span : Span) :
    assembly.accept ⟨base, limit⟩ token span = assembly.accept ⟨base, limit'⟩ token span ∨
      (token.opens = true ∧ ¬ Nesting.Allows ⟨base, limit⟩ (assembly.frames.length + 1) ∧
        assembly.accept ⟨base, limit⟩ token span = .error (.tooDeep limit span)) := by
  have hForm := acceptForm_eq_or_tooDeep base hLe assembly token span
  obtain ⟨frames, forms⟩ := assembly
  cases frames with
  | nil => exact hForm
  | cons frame outer =>
      cases frame with
      | list =>
          cases token with
          | listEnd | dot => exact .inl rfl
          | _ => exact hForm
      | dotted =>
          cases token with
          | listEnd => exact .inl rfl
          | _ => exact hForm
      | closing => cases token <;> exact .inl rfl
      | quote => exact hForm

/-- A run ends as it does with a greater limit, or it is refused at a span that opens a level beyond
its own. -/
theorem run_eq_or_tooDeep (base : Nat) (hLe : limit ≤ limit') (assembly : Assembly)
    (spans : List Span) :
    assembly.run ⟨base, limit⟩ spans = assembly.run ⟨base, limit'⟩ spans ∨
      ∃ before span behind last token, spans = before ++ span :: behind ∧
        assembly.run ⟨base, limit⟩ before = .ok last ∧ span.classify = .ok token ∧
        token.opens = true ∧ ¬ Nesting.Allows ⟨base, limit⟩ (last.frames.length + 1) ∧
        assembly.run ⟨base, limit⟩ spans = .error (.tooDeep limit span) := by
  induction spans generalizing assembly with
  | nil => exact .inl rfl
  | cons span spans ih =>
      rw [run_cons, run_cons, acceptSpan, acceptSpan]
      cases hToken : span.classify with
      | error error => exact .inl rfl
      | ok token =>
          rcases accept_eq_or_tooDeep base hLe assembly token span with
            hSame | ⟨hOpens, hOver, hRefused⟩
          · cases hAccept : assembly.accept ⟨base, limit⟩ token span with
            | error refusal =>
                rw [hAccept] at hSame
                simp only [acceptMeaning, hAccept, ← hSame]
                exact .inl rfl
            | ok next =>
                rw [hAccept] at hSame
                simp only [acceptMeaning, hAccept, ← hSame]
                refine (ih next).imp_right ?_
                rintro ⟨before, other, behind, last, opener, rfl, hRun, hRest⟩
                refine ⟨span :: before, other, behind, last, opener, rfl, ?_, hRest⟩
                rw [run_cons_of_step hToken (accept_eq_ok_iff_step.mp hAccept), hRun]
          · refine .inr ⟨[], span, spans, assembly, token, rfl, rfl, hToken, hOpens, hOver, ?_⟩
            simp only [acceptMeaning, hRefused]
            rfl

/-- Lexemes that are all accepted open no level beyond the limit. -/
theorem not_opensLevel_of_run {maxDepth : Nat} {before between : List Span} {span : Span}
    {last : Assembly}
    (hRun : empty.run ⟨0, maxDepth⟩ (before ++ span :: between) = .ok last) :
    ¬ OpensLevel (maxDepth + 1) before span := by
  rintro ⟨tokens, token, hTokens, hToken, hOpens, hLength⟩
  rw [run_append] at hRun
  cases hBefore : empty.run ⟨0, maxDepth⟩ before with
  | error refusal =>
      rw [hBefore] at hRun
      cases hRun
  | ok reached =>
      rw [hBefore] at hRun
      obtain ⟨next, hAccept, -⟩ := run_cons_eq_ok_iff.mp hRun
      obtain ⟨token', hToken', hAccepted⟩ := acceptSpan_eq_ok_iff.mp hAccept
      obtain rfl : token = token' := Except.ok.inj (hToken.symm.trans hToken')
      have hFollows := (follows_empty maxDepth).run hTokens hBefore
      have hAllows := allows_of_opens hOpens (accept_eq_ok_iff_step.mp hAccepted)
      rw [← hFollows.length_eq, Nesting.allows_iff_le] at hAllows
      exact Nat.not_succ_le_self _ (hLength ▸ hAllows)

/-- The lexeme that is refused for its level is the first that opens it. -/
theorem firstToOpen_of_run {maxDepth : Nat} {before behind : List Span} {span : Span}
    {token : Form} {last : Assembly} (hRun : empty.run ⟨0, maxDepth⟩ before = .ok last)
    (hToken : span.classify = .ok token) (hOpens : token.opens = true)
    (hOver : ¬ Nesting.Allows ⟨0, maxDepth⟩ (last.frames.length + 1)) :
    FirstToOpen (maxDepth + 1) (before ++ span :: behind) span := by
  refine ⟨before, behind, rfl, ?_, ?_⟩
  · obtain ⟨tokens, hTokens⟩ := exists_classified_of_run hRun
    have hFollows := (follows_empty maxDepth).run hTokens hRun
    have hAllowed := hFollows.allowed
    rw [← hFollows.length_eq, Nesting.allows_iff_le] at hAllowed hOver
    refine ⟨tokens, token, hTokens, hToken, hOpens, ?_⟩
    exact Nat.le_antisymm (Nat.succ_le_succ hAllowed) (Nat.lt_of_not_le hOver)
  · rintro earlier other between rfl
    exact not_opensLevel_of_run hRun

end Assembly

/-- With a smaller limit a text is read as with a greater one, unless reading stops where a list or
a quote mark is the first to open a level beyond the smaller limit. So a text that is read is read
to the same forms with every greater limit. -/
theorem readText_of_le_maxDepth (text : List Char) (keepComments : Bool) {maxDepth greater : Nat}
    (hLe : maxDepth ≤ greater) :
    (readText text keepComments maxDepth = readText text keepComments greater ∨
      ∃ span, FirstToOpen (maxDepth + 1) (scan text) span ∧
        readText text keepComments maxDepth =
          .error (.structural (.tooDeep maxDepth) (some span.position)) ∧
        (StructureFault.tooDeep maxDepth).message =
          s!"forms nested deeper than {maxDepth} levels") ∧
    ∀ forms, readText text keepComments maxDepth = .ok forms →
      readText text keepComments greater = .ok forms := by
  have hEither : readText text keepComments maxDepth = readText text keepComments greater ∨
      ∃ span, FirstToOpen (maxDepth + 1) (scan text) span ∧
        readText text keepComments maxDepth =
          .error (.structural (.tooDeep maxDepth) (some span.position)) := by
    rw [readText_eq_conclude, readText_eq_conclude]
    rcases Assembly.run_eq_or_tooDeep 0 (Int.ofNat_le.mpr hLe) .empty (scan text) with
      hSame | ⟨before, span, behind, last, token, hSpans, hRun, hToken, hOpens, hOver, hRefused⟩
    · exact .inl (congrArg _ hSame)
    · refine .inr ⟨span, ?_, ?_⟩
      · exact hSpans ▸ Assembly.firstToOpen_of_run hRun hToken hOpens hOver
      · exact congrArg (Assembly.conclude keepComments) hRefused
  refine ⟨?_, ?_⟩
  · refine hEither.imp_right ?_
    rintro ⟨span, hFirst, hRefused⟩
    exact ⟨span, hFirst, hRefused, rfl⟩
  · intro forms hRead
    rcases hEither with hSame | ⟨span, -, hRefused⟩
    · exact hSame ▸ hRead
    · rw [hRefused] at hRead
      cases hRead

theorem readText_of_le_maxDepth_of_quoted_list :
    2 ≤ 3 ∧ ∃ span, FirstToOpen 3 (scan ['(', '\'', '(', 'a', ')', ')']) span ∧
      readText ['(', '\'', '(', 'a', ')', ')'] true (2 : Nat) =
        .error (.structural (.tooDeep (2 : Nat)) (some span.position)) := by
  have hLe : 2 ≤ 3 := by decide
  generalize hText : ['(', '\'', '(', 'a', ')', ')'] = text
  have hScan : scan text =
      [⟨0, 1, text⟩, ⟨1, 2, text⟩, ⟨2, 3, text⟩, ⟨3, 4, text⟩, ⟨4, 5, text⟩, ⟨5, 6, text⟩] := by
    subst hText
    decide +kernel
  have hRead : readText text true (3 : Nat) =
      .ok [.cons (.quoteForm (.text "quote") (.cons (.symbol (.text "a")) .emptyList))
        .emptyList] := by
    rw [readText_eq_conclude, hScan]
    subst hText
    rfl
  have hRefused : readText text true (2 : Nat) =
      .error (.structural (.tooDeep 2) (some ⟨1, 2⟩)) := by
    rw [readText_eq_conclude, hScan]
    subst hText
    rfl
  rcases (readText_of_le_maxDepth text true hLe).1 with hSame | ⟨span, hFirst, hError, -⟩
  · rw [hRead, hRefused] at hSame
    cases hSame
  · exact ⟨hLe, span, hFirst, hError⟩

end LispReader
