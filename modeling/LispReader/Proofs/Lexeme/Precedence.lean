import LispReader.Proofs.Lexeme.Outcome

/-!
The order of the rules. The rule for symbols takes many texts that other rules take, so it has to
come last. No two of the others apply to the same text, and so the order among them does not matter.
-/

namespace LispReader

open Decimal Lexeme

namespace Rule

variable {text : List Char} {quoted : Unit → Except LexemeFault Form}

/-- The only rule that may apply to a text, that of symbols aside. Fixed texts and first characters
decide, and a number is told by its slash or its point. -/
def candidate (text : List Char) : Rule :=
  match text with
  | ';' :: _ => .comment
  | '"' :: _ => .string
  | '#' :: _ => .functionQuote
  | '\'' :: _ => .quote
  | _ =>
    if text ∈ [['('], [')'], ['.'], ['n', 'i', 'l']] then .marker
    else if '/' ∈ text then .rational
    else if '.' ∈ text then .float
    else .integer

theorem candidate_of_startsNumber {c : Char} (h : StartsNumber c) (rest : List Char) :
    candidate (c :: rest) =
      if '/' ∈ c :: rest then .rational else if '.' ∈ c :: rest then .float else .integer := by
  have hMarker : c :: rest ∉ [['('], [')'], ['.'], ['n', 'i', 'l']] :=
    not_applies_of_startsNumber h rest .marker (by simp)
  unfold candidate
  split
  case h_5 => rw [if_neg hMarker]
  all_goals
    obtain ⟨rfl, -⟩ := List.cons.inj ‹c :: rest = _›
    simp [StartsNumber] at h

theorem candidate_of_applies {rule : Rule} (hOther : rule ≠ .symbol) (h : rule.Applies text) :
    candidate text = rule := by
  cases rule with
  | comment | string | functionQuote | quote =>
      obtain ⟨rest, rfl⟩ := h
      rfl
  | marker =>
      simp only [Applies, List.mem_cons, List.not_mem_nil, or_false] at h
      rcases h with rfl | rfl | rfl | rfl <;> rfl
  | rational =>
      have hShape : RatioShape text := h
      obtain ⟨c, rest, rfl, hStarts⟩ := hShape.exists_cons
      rw [candidate_of_startsNumber hStarts, if_pos hShape.slash_mem]
  | float =>
      have hShape : FloatShape text := h
      obtain ⟨c, rest, rfl, hStarts⟩ := hShape.exists_cons
      rw [candidate_of_startsNumber hStarts, if_neg hShape.slash_notMem, if_pos hShape.point_mem]
  | integer =>
      have hShape : IntegerShape text := h
      obtain ⟨c, rest, rfl, hStarts⟩ := hShape.exists_cons
      rw [candidate_of_startsNumber hStarts, if_neg (hShape.notMem rfl (by decide) (by decide)),
        if_neg (hShape.notMem rfl (by decide) (by decide))]
  | symbol => exact absurd rfl hOther

/-- At most one rule applies to a text, that of symbols aside. -/
theorem eq_of_applies {rule other : Rule} (hRule : rule ≠ .symbol) (hOther : other ≠ .symbol)
    (h : rule.Applies text) (h' : other.Applies text) : rule = other :=
  (candidate_of_applies hRule h).symm.trans (candidate_of_applies hOther h')

/-- A rule that is tried alone passes a text over if it does not apply. -/
theorem apply_eq_none_iff {rule : Rule} : rule.apply text = .ok none ↔ ¬ rule.Applies text :=
  attempt_eq_none_iff

theorem firstOf_of_not_applies {rule : Rule} (h : ¬ rule.Applies text) (others : List Rule) :
    firstOf (rule :: others) text quoted = firstOf others text quoted :=
  firstOf_append (List.forall_mem_singleton.mpr h)

theorem firstOf_cons_congr (rule : Rule) {others others' : List Rule}
    (h : firstOf others text quoted = firstOf others' text quoted) :
    firstOf (rule :: others) text quoted = firstOf (rule :: others') text quoted := by
  simp only [firstOf, h]

/-- A rule that does not apply may change places with its neighbour. -/
theorem firstOf_swap {rule : Rule} (h : ¬ rule.Applies text) (other : Rule) (others : List Rule) :
    firstOf (other :: rule :: others) text quoted = firstOf (rule :: other :: others) text quoted :=
  (firstOf_cons_congr other (firstOf_of_not_applies h others)).trans
    (firstOf_of_not_applies h (other :: others)).symm

/-- Rules that exclude each other may be tried in any order, whatever is tried behind them. -/
theorem firstOf_perm {rules rules' : List Rule} (h : rules.Perm rules')
    (hOthers : ∀ rule ∈ rules, rule ≠ .symbol) (behind : List Rule) :
    firstOf (rules ++ behind) text quoted = firstOf (rules' ++ behind) text quoted := by
  induction h with
  | nil => rfl
  | cons rule _ ih =>
      exact firstOf_cons_congr rule (ih fun other hOther =>
        hOthers other (List.mem_cons_of_mem _ hOther))
  | swap first second rules =>
      by_cases hFirst : first.Applies text
      · by_cases hSecond : second.Applies text
        · rw [eq_of_applies (hOthers first (by simp)) (hOthers second (by simp)) hFirst hSecond]
        · exact (firstOf_swap hSecond first (rules ++ behind)).symm
      · exact firstOf_swap hFirst second (rules ++ behind)
  | trans hFirst _ ih ih' =>
      exact (ih hOthers).trans (ih' fun rule hRule => hOthers rule (hFirst.mem_iff.mpr hRule))

end Rule

namespace Lexeme

/-- Rules that agree on the first meaning of every text agree on what is behind quote marks, too. -/
theorem classifyBy_congr {rules rules' : List Rule}
    (h : ∀ text quoted, Rule.firstOf rules text quoted = Rule.firstOf rules' text quoted)
    (text : List Char) : classifyBy rules text = classifyBy rules' text := by
  induction hLength : text.length using Nat.strong_induction_on generalizing text with
  | _ length ih =>
      subst hLength
      cases text with
      | nil => rfl
      | cons c rest =>
          rw [classifyBy.eq_def, classifyBy.eq_def rules']
          dsimp only
          rw [h]
          congr 1
          funext _
          split
          · exact ih _ (by simp only [List.length_cons]; omega) _ rfl
          · exact ih _ (by simp) _ rfl

/-- Of the rules but that of symbols, at most one does not pass a text over. So they may be tried in
any order, if only symbols come last. -/
theorem classifyBy_of_perm (text : List Char) :
    (∀ rule other : Rule, rule ≠ .symbol → other ≠ .symbol →
      rule.apply text ≠ .ok none → other.apply text ≠ .ok none → rule = other) ∧
    ∀ rules : List Rule, (rules ++ [Rule.symbol]).Perm Rule.all →
      classifyBy (rules ++ [.symbol]) text = classify text := by
  constructor
  · intro rule other hRule hOther h h'
    exact Rule.eq_of_applies hRule hOther (not_not.mp (Rule.apply_eq_none_iff.not.mp h))
      (not_not.mp (Rule.apply_eq_none_iff.not.mp h'))
  · intro rules hPerm
    have hNodup : (rules ++ [Rule.symbol]).Nodup := hPerm.nodup_iff.mpr (by decide)
    have hOthers : ∀ rule ∈ rules, rule ≠ .symbol := by
      rintro rule hRule rfl
      exact (List.nodup_append.mp hNodup).2.2 _ hRule _ (by simp) rfl
    have hRules : rules.Perm Rule.all.dropLast := (List.perm_append_right_iff [.symbol]).mp hPerm
    exact classifyBy_congr (fun text quoted => Rule.firstOf_perm hRules hOthers [.symbol]) text

theorem classifyBy_of_perm_reversed :
    (∀ other : Rule, other ≠ .symbol → other.apply ['\'', '1', '/', '2'] ≠ .ok none →
      Rule.quote = other) ∧
    classifyBy (Rule.all.dropLast.reverse ++ [.symbol]) ['\'', '1', '/', '2'] =
      classify ['\'', '1', '/', '2'] := by
  obtain ⟨hOnly, hPerm⟩ := classifyBy_of_perm ['\'', '1', '/', '2']
  refine ⟨fun other hOther => hOnly .quote other (by decide) hOther ?_, hPerm _ (by decide)⟩
  rw [ne_eq, Rule.apply_eq_none_iff, not_not]
  exact ⟨_, rfl⟩

end Lexeme

end LispReader
