import ImportAtlas.Text.Lines
import ImportAtlas.Text.Blank
import ImportAtlas.Text.Word

/-!
# Scanning a text for statements

A recogniser looks at the front of a text and says what statement stands there and what follows it.
`scan` finds the statements of a text from left to right; they never overlap.
-/

namespace ImportAtlas

variable {α : Type}

/-- A recogniser: what stands at the front of the text, and the rest. -/
abbrev Recogniser (α : Type) := List Char → Option (α × List Char)

structure Found (α : Type) where
  value : α
  /-- How many characters stand before it. -/
  start : Nat
  /-- The statement as it is written. -/
  text : List Char

namespace Found

/-- The number of characters that a recogniser has used up. -/
def used (cs rest : List Char) : Nat := cs.length - rest.length

/-- The statements of a text whose first `skip` characters belong to a statement already found. -/
def scanFrom (at? : Recogniser α) : Nat → Nat → List Char → List (Found α)
  | _, _, [] => []
  | start, skip + 1, _ :: cs => scanFrom at? (start + 1) skip cs
  | start, 0, c :: cs =>
    match at? (c :: cs) with
    | some (a, rest) =>
      ⟨a, start, (c :: cs).take (used (c :: cs) rest)⟩ ::
        scanFrom at? (start + 1) (used (c :: cs) rest - 1) cs
    | none => scanFrom at? (start + 1) 0 cs

def scan (at? : Recogniser α) (cs : List Char) : List (Found α) := scanFrom at? 0 0 cs

/-- The line on which the statement's text first occurs. -/
def line (content : List Char) (f : Found α) : Int := Text.lineOf content f.text

end Found

namespace Recogniser

def isQuote (c : Char) : Bool := c == '"' || c == '\x27'

/-- Characters up to the first that satisfies `stop`, of which there is at least one; the stop
itself is used up. -/
def until? (stop : Char → Bool) (cs : List Char) : Option (List Char × List Char) :=
  match cs.takeWhile (!stop ·), cs.dropWhile (!stop ·) with
  | [], _ => none
  | _, [] => none
  | body, _ :: rest => some (body, rest)

/-- A quoted specifier; the marks need not be the same. -/
def quoted? : List Char → Option (List Char × List Char)
  | c :: cs => if isQuote c then until? isQuote cs else none
  | [] => none

/-- `from`, blanks and a quoted specifier. -/
def source? (cs : List Char) : Option (List Char × List Char) := do
  let r ← Text.after? "from".toList cs
  let r ← Text.skipBlanks1? r
  quoted? r

def braces? : List Char → Option (List Char × List Char)
  | '{' :: cs => until? (· == '}') cs
  | _ => none

/-- A word followed by blanks, both used up. -/
def keyword? (w : String) (cs : List Char) : Option (List Char) :=
  (Text.after? w.toList cs).bind Text.skipBlanks1?

end Recogniser

end ImportAtlas
