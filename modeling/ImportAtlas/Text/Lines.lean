import ImportAtlas.Text.Search

/-!
# Lines of a text

Line numbers count line feeds. Files are read with every line end turned into a line feed
(`unifyLineEnds`), and a memory is cut into lines at every kind of line boundary (`boundaryLines`).
-/

namespace ImportAtlas.Text

/-- The number of line feeds among the first `n` characters. -/
def breaksBefore (n : Nat) (cs : List Char) : Nat := (cs.take n).count '\n'

/-- The 1-based line on which `snippet` first occurs; line 1 if it does not occur. -/
def lineOf (content snippet : List Char) : Nat :=
  breaksBefore ((indexOf? snippet content).getD 0) content + 1

theorem lineOf_le (content snippet : List Char) :
    lineOf content snippet ≤ content.count '\n' + 1 := by
  have h : (List.take ((indexOf? snippet content).getD 0) content).count '\n' ≤ content.count '\n' :=
    (List.take_sublist _ _).count_le _
  unfold lineOf breaksBefore
  omega

/-- A carriage return, alone or before a line feed, becomes a line feed. -/
def unifyLineEnds : List Char → List Char
  | '\r' :: '\n' :: cs => '\n' :: unifyLineEnds cs
  | '\r' :: cs => '\n' :: unifyLineEnds cs
  | c :: cs => c :: unifyLineEnds cs
  | [] => []

/-- The characters that end a line of a memory. -/
def isLineBoundary (c : Char) : Bool :=
  let n := c.toNat
  (0x0a ≤ n && n ≤ 0x0d) || (0x1c ≤ n && n ≤ 0x1e) || n == 0x85 || n == 0x2028 || n == 0x2029

/-- The lines of a text without their ends; a boundary at the very end opens no further line. -/
def boundaryLines : List Char → List (List Char)
  | [] => []
  | c :: cs =>
    if isLineBoundary c then
      match c, cs with
      | '\r', '\n' :: ds => [] :: boundaryLines ds
      | _, ds => [] :: boundaryLines ds
    else match boundaryLines cs with
      | p :: ps => (c :: p) :: ps
      | [] => [[c]]
termination_by cs => cs.length

end ImportAtlas.Text
