import ImportAtlas.Console.Line

/-!
# Tables on a terminal

A table has a title centred above it, a heading with a heavy frame, and rows with a light one.
Each column is as wide as its widest line, with a space on either side.
-/

namespace ImportAtlas.Console

structure Column where
  heading : String
  /-- Its lines end at the right edge. -/
  alignsRight : Bool
  deriving DecidableEq, Repr

/-- A table whose title, headings and cells are marked up texts. -/
structure Table where
  title : String
  columns : List Column
  rows : List (List String)
  deriving DecidableEq, Repr

namespace Table

/-- The lines of a cell. -/
abbrev Cell := List (List Char)

/-- The characters of a rule: its left end, its line, its crossings and its right end. -/
structure Rule where
  left : Char
  line : Char
  cross : Char
  right : Char

def topRule : Rule := ⟨'┏', '━', '┳', '┓'⟩

def headRule : Rule := ⟨'┡', '━', '╇', '┩'⟩

def bottomRule : Rule := ⟨'└', '─', '┴', '┘'⟩

def Rule.over (r : Rule) (widths : List Nat) : List Char :=
  r.left :: Text.joinWith r.cross (widths.map fun w => List.replicate (w + 2) r.line) ++ [r.right]

def trimEnd (cs : List Char) : List Char := (cs.reverse.dropWhile Text.isBlank).reverse

def fill (alignsRight : Bool) (w : Nat) (cs : List Char) : List Char :=
  if alignsRight then
    let cs := trimEnd cs
    spaces (w - width cs) ++ cs
  else cs ++ spaces (w - width cs)

/-- One line of a row: the parts of its cells between upright bars. -/
def barred (bar : Char) (parts : List (List Char)) : List Char :=
  bar :: parts.flatMap fun p => ' ' :: p ++ [' ', bar]

def rowLines (bar : Char) (columns : List (Column × Nat)) (row : List Cell) : List (List Char) :=
  let height := (row.map List.length).foldl max 1
  (List.range height).map fun i =>
    barred bar ((columns.zip row).map fun ((c, w), cell) =>
      fill c.alignsRight w ((cell[i]?).getD []))

/-- The width of the widest line. -/
def cellWidth (cell : Cell) : Nat := (cell.map width).foldl max 0

def widths (rows : List (List Cell)) : List Nat :=
  rows.foldr (fun row ws =>
    (List.range (max row.length ws.length)).map fun i =>
      max (((row.map cellWidth)[i]?).getD 0) ((ws[i]?).getD 0)) []

/-- A text in the middle of a width; an odd space goes to the right. -/
def centred (w : Nat) (cs : List Char) : List Char :=
  let cs := trimEnd cs
  let gap := w - width cs
  spaces (gap / 2) ++ cs ++ spaces (gap - gap / 2)

def draw (t : Table) : Except Markup.MarkupError (List (List Char)) := do
  let title ← lines t.title
  let heading ← t.columns.mapM fun c => lines c.heading
  let rows ← t.rows.mapM (List.mapM lines)
  let ws := widths (heading :: rows)
  let columns := t.columns.zip ws
  let total := (ws.map (· + 3)).foldr (· + ·) 0 + 1
  return title.map (centred total) ++ topRule.over ws :: rowLines '┃' columns heading ++
    headRule.over ws :: rows.flatMap (rowLines '│' columns) ++ [bottomRule.over ws]

end Table

end ImportAtlas.Console
