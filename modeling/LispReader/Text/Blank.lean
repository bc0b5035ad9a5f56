/-!
Blanks and line breaks. Blanks separate lexemes; a line break ends the first line of a comment.
Both classes are fixed lists of code points, so they are written out.
-/

namespace LispReader.Text

/-- A blank is a character that may stand between two lexemes: the ASCII controls used for
layout, the four information separators, the space, and the spaces of other scripts. -/
def isBlank (c : Char) : Bool :=
  let n := c.toNat
  (9 ≤ n && n ≤ 13) || (28 ≤ n && n ≤ 32) || n == 0x85 || n == 0xA0 || n == 0x1680 ||
    (0x2000 ≤ n && n ≤ 0x200A) || n == 0x2028 || n == 0x2029 || n == 0x202F || n == 0x205F ||
    n == 0x3000

/-- A line break is a character at which a comment's text ends, should one stand in it. Positions
do not use this class: they count line feeds only. -/
def isLineBreak (c : Char) : Bool :=
  let n := c.toNat
  (10 ≤ n && n ≤ 13) || (28 ≤ n && n ≤ 30) || n == 0x85 || n == 0x2028 || n == 0x2029

/-- The first line of a text, without its line break. -/
def firstLine (text : List Char) : List Char :=
  text.takeWhile fun c => !isLineBreak c

end LispReader.Text
