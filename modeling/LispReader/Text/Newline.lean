/-!
Texts that were read from a file or from a terminal: their line ends, and how long they can be.
-/

namespace LispReader.Text

/-- The greatest number of characters that can be held in one text. -/
def lengthLimit : Nat := 0x7fffffffffffffff

/-- Makes every line end a line feed: a carriage return counts as one, and so does a carriage
return together with the line feed after it. -/
def unifyNewlines : List Char → List Char
  | [] => []
  | '\r' :: '\n' :: rest => '\n' :: unifyNewlines rest
  | c :: rest => (if c = '\r' then '\n' else c) :: unifyNewlines rest

theorem not_mem_unifyNewlines (text : List Char) : '\r' ∉ unifyNewlines text := by
  fun_induction unifyNewlines text with
  | case1 => simp
  | case2 rest ih => simp [ih]
  | case3 c rest _ ih =>
      by_cases h : c = '\r'
      · simp [h, ih]
      · simp [h, ih, Ne.symm h]

end LispReader.Text
