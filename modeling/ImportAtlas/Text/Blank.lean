/-!
# Blank characters

The white space that separates tokens and that trimming removes: the ASCII controls from tab to
carriage return and from file to unit separator, the space, and the spaces and line separators
beyond ASCII. A zero-width space is not blank.
-/

namespace ImportAtlas.Text

/-- White space, line breaks of every kind included. -/
def isBlank (c : Char) : Bool :=
  let n := c.toNat
  (0x09 ≤ n && n ≤ 0x0d) || (0x1c ≤ n && n ≤ 0x20) || n == 0x85 || n == 0xa0 || n == 0x1680 ||
    (0x2000 ≤ n && n ≤ 0x200a) || n == 0x2028 || n == 0x2029 || n == 0x202f || n == 0x205f ||
    n == 0x3000

theorem isBlank_of_isWhitespace {c : Char} (h : c.isWhitespace = true) : isBlank c = true := by
  simp only [Char.isWhitespace, Bool.or_eq_true, decide_eq_true_eq] at h
  rcases h with ((h | h) | h) | h <;> subst h <;> decide

def skipBlanks (cs : List Char) : List Char := cs.dropWhile isBlank

/-- What follows the blanks at the front, of which there is at least one. -/
def skipBlanks1? : List Char → Option (List Char)
  | c :: cs => if isBlank c then some (skipBlanks cs) else none
  | [] => none

def trimBoth (p : Char → Bool) (cs : List Char) : List Char :=
  ((cs.dropWhile p).reverse.dropWhile p).reverse

def trim (cs : List Char) : List Char := trimBoth isBlank cs

end ImportAtlas.Text
