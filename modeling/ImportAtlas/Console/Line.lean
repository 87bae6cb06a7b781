import ImportAtlas.Console.Markup
import ImportAtlas.Console.Width

/-!
# Lines on a terminal

A printed text loses the controls that would move the cursor, and its tabs become spaces up to the
next stop.
-/

namespace ImportAtlas.Console

/-- Bell, backspace, vertical tab, form feed and carriage return are not printed. -/
def isDropped (c : Char) : Bool :=
  let n := c.toNat
  n == 7 || n == 8 || (11 ≤ n && n ≤ 13)

def tabSize : Nat := 8

/-- Tabs as spaces, for a text that begins `position` cells into the line. -/
def expandTabs (position : Nat) : List Char → List Char
  | [] => []
  | c :: cs =>
    if c = '\t' then
      let gap := tabSize - position % tabSize
      spaces gap ++ expandTabs (position + gap) cs
    else c :: expandTabs (position + cells c) cs

def linesOf (cs : List Char) : List (List Char) :=
  (Text.splitAt '\n' (cs.filter (!isDropped ·))).map (expandTabs 0)

/-- The lines that a marked up text shows. -/
def lines (s : String) : Except Markup.MarkupError (List (List Char)) :=
  (Markup.render s).map linesOf

def printed (ls : List (List Char)) : String :=
  String.join (ls.map fun l => String.ofList l ++ "\n")

end ImportAtlas.Console
