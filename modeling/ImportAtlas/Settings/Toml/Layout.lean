import ImportAtlas.Settings.Toml.Quote
import ImportAtlas.Text.Word

/-!
# Laying out a document

The first pass over a text. It follows quotes, brackets and keys one character at a time and changes
the text so that every statement stands on a line of its own: comments become blanks, and so do the
line ends inside an array. A line end right after the opening quotes of a text of several lines
becomes a quote and the first of the quotes a blank, so the text begins after the line end.

Keys are checked here. The first character of a key may be anything but an equals sign; what follows
it is made of letters, digits, low lines, dashes, dots and quoted parts, and the parts may have
blanks around the dots between them.
-/

namespace ImportAtlas.Toml

inductive KeyPlace where
  /-- Not in a key. -/
  | outside
  /-- In the characters of a key. -/
  | within
  /-- Behind a part of a key. -/
  | behind
  deriving DecidableEq, Repr

/-- Whether a heading is open, and which. -/
inductive HeadingPlace where
  | outside
  /-- The heading of a table. -/
  | table
  /-- The heading of a further table of an array. -/
  | further
  deriving DecidableEq, Repr

structure Layout where
  /-- What has been laid out, the latest first. -/
  done : List Char
  /-- Brackets that are open. -/
  depth : Int
  /-- The quote that is open. -/
  quote : Option Char
  /-- Whether three quotes have opened a text of several lines. -/
  multiline : Bool
  heading : HeadingPlace
  /-- Whether nothing but blanks has been met on the line. -/
  fresh : Bool
  key : KeyPlace
  /-- Whether the key has dots. -/
  dotted : Bool
  /-- Whether the rest of the line is a comment. -/
  comment : Bool

namespace Layout

def start : Layout := ⟨[], 0, none, false, .outside, true, .outside, false, false⟩

def put (s : Layout) (c : Char) : Layout := { s with done := c :: s.done }

/-- After a blank or a dot within a key, its next part begins unless a blank or a dot follows. -/
def resumeKey (s : Layout) (rest : List Char) : Reading Layout :=
  match rest with
  | [] => pastEnd
  | n :: _ => .ok (if Text.isBlank n || n == '.' then s else { s with key := .within })

def endKey (s : Layout) (c : Char) : Reading Layout :=
  if c == '=' then .ok { s with key := .outside, dotted := false } else malformed

def stepKey (s : Layout) (c : Char) (rest : List Char) : Reading Layout :=
  if c == '\n' then malformed
  else
    match s.quote with
    | some q =>
      .ok (if c == q && !endsEscaping s.done then { s with key := .behind, quote := none } else s)
    | none =>
      if s.key == .within then
        if Text.isBlank c then .ok { s with key := .behind }
        else if c == '.' then .ok { s with dotted := true }
        else if Text.isWord c || c == '-' then .ok s
        else if s.dotted && s.done.head? == some '.' && isQuote c then
          .ok { s with quote := some c }
        else s.endKey c
      else if Text.isBlank c then if s.dotted then s.resumeKey rest else .ok s
      else if c == '.' then { s with dotted := true }.resumeKey rest
      else s.endKey c

/-- Opens or closes a text at a quote. The third quote in a row opens or closes a text of several
lines. A double quote after a backslash that is not itself escaped does neither. The text is looked
at as a ring, so at its front its end lies behind. -/
def turnQuote (s : Layout) (c : Char) (rest : List Char) : Layout :=
  let behind := s.done ++ (c :: rest).reverse
  let run := ((behind.take 2).takeWhile (· == c)).length
  if c == '"' && run != 1 && endsEscaping (behind.drop run) then s
  else if run == 2 then
    { s with multiline := !s.multiline, quote := if s.multiline then none else some c }
  else { s with quote := if s.quote.isNone then some c else none }

/-- A line end. Inside an array it is a blank. Inside a text of several lines, right after two
quotes, it is a third one. -/
def breakLine (s : Layout) : Reading Layout :=
  if s.multiline then
    match s.done with
    | a :: b :: c :: r =>
      if isQuote a && a == b then
        .ok { s with done := a :: a :: b :: (if c == a then ' ' else c) :: r }
      else .ok (s.put '\n')
    | _ => .ok (s.put '\n')
  else if s.quote.isSome then malformed
  else if s.depth != 0 then .ok (s.put ' ')
  else .ok { s.put '\n' with fresh := true }

/-- The first character of a line that is no blank begins a key, unless a heading is open. -/
def beginLine (s : Layout) (c : Char) : Reading Layout :=
  if s.fresh && c != ' ' && c != '\t' then
    if s.heading == .outside then
      if c == '=' then malformed else .ok { s with fresh := false, key := .within }
    else .ok { s with fresh := false }
  else .ok s

/-- An opening bracket: of a heading at the front of a line, else of an array. -/
def openBracket (s : Layout) (rest : List Char) : Layout :=
  if s.quote.isSome || s.heading != .outside then s
  else if s.fresh then
    { s with heading := if rest.head? == some '[' then .further else .table }
  else { s with depth := s.depth + 1 }

/-- A closing bracket. A heading with two brackets ends with two in a row. -/
def closeBracket (s : Layout) : Layout :=
  if s.quote.isSome then s
  else
    match s.heading with
    | .table => { s with heading := .outside }
    | .further => if s.done.head? == some ']' then { s with heading := .outside } else s
    | .outside => { s with depth := s.depth - 1 }

def stepPlain (s : Layout) (c : Char) (rest : List Char) : Reading Layout :=
  if c == '\n' then s.breakLine
  else if c == '#' && s.quote.isNone && s.heading == .outside then
    .ok { s.put ' ' with comment := true }
  else do
    let s :=
      if isQuote c then
        if s.quote.all (· == c) then s.turnQuote c rest else s
      else if c == '[' then s.openBracket rest
      else if c == ']' then s.closeBracket
      else s
    return (← s.beginLine c).put c

def step (s : Layout) (c : Char) (rest : List Char) : Reading Layout :=
  if s.comment && c != '\n' then .ok (s.put ' ')
  else
    let s := { s with comment := false }
    if s.key == .outside then s.stepPlain c rest
    else do return (← s.stepKey c rest).put c

def run (s : Layout) : List Char → Reading Layout
  | [] => .ok s
  | c :: cs => do (← s.step c cs).run cs

end Layout

/-- The lines of a text, laid out. Keys and texts are complete at its end. -/
def layOut (cs : List Char) : Reading (List (List Char)) := do
  let s ← Layout.start.run cs
  if s.key != .outside || s.quote.isSome then malformed
  else return Text.splitAt '\n' s.done.reverse

end ImportAtlas.Toml
