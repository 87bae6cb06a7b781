import ImportAtlas.Settings.Toml.Quote

/-!
# The items of arrays and inline tables

A collection is cut into the texts of its items before any of them is read. The first and the last
character of a collection are taken for its brackets, whatever they are. Commas inside items are
told from commas between them by the look of the pieces: quotes at both ends of a piece
(`joinTexts`), brackets (`splitAtDepth`), braces (`braceGroups`), or a value that is complete
(`memberTexts`).
-/

namespace ImportAtlas.Toml

def isTextArray (cs : List Char) : Bool := (Text.trim (dropEnds cs)).head?.any isQuote

/-! ## Arrays of texts -/

/-- Whether a piece ends with the character that it begins with, and this is not escaped. A single
quote alone does so too. -/
def isBounded (cs : List Char) : Bool :=
  cs.head? == cs.getLast? && !endsEscaping (dropEnds cs).reverse

/-- Whether a piece begins with three quotes and ends with one only. -/
def isHalfOpen (cs : List Char) : Bool :=
  match cs, cs.reverse with
  | a :: b :: c :: _, _ :: y :: z :: _ => a == b && b == c && y != a && z != a
  | _, _ => false

/-- Whether a piece holds a text from quote to quote. -/
def isWholeText (cs : List Char) : Bool :=
  let cs := Text.trim cs
  isBounded cs && !isHalfOpen cs

/-- Joins the piece `p` with those after it until it holds a text from quote to quote. The last
piece is taken as it is, unless others were joined to it. -/
def joinTextsFrom (joined : Bool) (p : List Char) : List (List Char) → Reading (List (List Char))
  | [] => if joined && !isWholeText p then pastEnd else .ok [p]
  | q :: qs =>
    if isWholeText p then (p :: ·) <$> joinTextsFrom false q qs
    else joinTextsFrom true (p ++ ',' :: q) qs

def joinTexts : List (List Char) → Reading (List (List Char))
  | [] => .ok []
  | p :: ps => joinTextsFrom false p ps

/-! ## Arrays of arrays and of tables -/

/-- The pieces between commas that stand in no inner bracket. -/
def splitAtDepth : Int → List Char → List (List Char)
  | _, [] => [[]]
  | depth, c :: cs =>
    if c == ',' && depth == 0 then [] :: splitAtDepth depth cs
    else
      Text.consFirst c
        (splitAtDepth (if c == '[' then depth + 1 else if c == ']' then depth - 1 else depth) cs)

/-- Where the search for groups in braces stands. -/
inductive BracePlace where
  /-- In a group, given from its end. -/
  | within (group : List Char)
  /-- Right behind a group. -/
  | behind
  /-- Before the next group. -/
  | between

/-- The groups in braces, when `depth` braces are open and `quoted` tells whether a text is. The
first character of a group is not looked at, and a group that does not end is dropped. -/
def braceGroupsFrom (depth : Nat) (quoted : Bool) (place : BracePlace) :
    List Char → List (List Char)
  | [] => []
  | c :: cs =>
    match place with
    | .behind => braceGroupsFrom depth quoted .between cs
    | .between => braceGroupsFrom depth quoted (if c == '{' then .within [c] else .between) cs
    | .within group =>
      let quoted := if isQuote c then !quoted || endsEscaping group else quoted
      if quoted || c != '}' then
        braceGroupsFrom (if !quoted && c == '{' then depth + 1 else depth) quoted
          (.within (c :: group)) cs
      else if 1 < depth then braceGroupsFrom (depth - 1) quoted (.within (c :: group)) cs
      else (c :: group).reverse :: braceGroupsFrom depth quoted .behind cs

def braceGroups : List Char → List (List Char)
  | [] => []
  | c :: cs => braceGroupsFrom (if c == '{' then 1 else 0) false (.within [c]) cs

def itemTexts (cs : List Char) : Reading (List (List Char)) :=
  let cs := Text.trim cs
  let inside := dropEnds cs
  if inside.contains '[' && (inside.takeWhile (· != '[')).all Text.isBlank then
    .ok (splitAtDepth 0 inside)
  else if (Text.trim inside).head? == some '{' then .ok (braceGroups inside)
  else if isTextArray cs then joinTexts (Text.splitAt ',' inside)
  else .ok (Text.splitAt ',' inside)

/-! ## Inline tables -/

def isWholeValue (first : Char) (value : List Char) : Bool :=
  let last := value.getLast?
  (isQuote first && last == some first) || first == '-' || first.isDigit ||
    value == "true".toList || value == "false".toList ||
    (first == '[' && last == some ']') || (first == '{' && last == some '}')

/-- Whether a piece is a member with a complete value. It has an equals sign and something after
it. -/
def isWholeMember (p : List Char) : Reading Bool :=
  match Text.splitTimes ['='] 1 p with
  | [_, value] =>
    match Text.trim value with
    | [] => pastEnd
    | c :: v => .ok (isWholeValue c (c :: v))
  | _ => malformed

/-- Joins the piece `p` with those after it until it is a member with a complete value. -/
def memberTextsFrom (p : List Char) : List (List Char) → Reading (List (List Char))
  | [] => do if ← isWholeMember p then return [p] else malformed
  | q :: qs => do
    if ← isWholeMember p then return p :: (← memberTextsFrom q qs)
    else memberTextsFrom (p ++ ',' :: q) qs

def memberTexts (cs : List Char) : Reading (List (List Char)) :=
  match Text.splitAt ',' (dropEnds cs) with
  | [] => .ok []
  | [p] => if p.all Text.isBlank then .ok [] else memberTextsFrom p []
  | p :: ps => memberTextsFrom p ps

end ImportAtlas.Toml
