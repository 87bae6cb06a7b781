import ImportAtlas.Json.Reader
import ImportAtlas.Settings.Toml.Basic
import ImportAtlas.Text.Blank
import ImportAtlas.Text.Search

/-!
# Quotes and escapes

Where a line is cut depends on its quotes (`piecesAtQuotes`, `cutsFor`). A text in double quotes has
escapes. Escapes that write a code point are replaced first and by text, so what they write may take
part in a later escape; the escapes of single characters follow (`quotedText`).
-/

namespace ImportAtlas.Toml

def apostrophe : Char := '\x27'

def isQuote (c : Char) : Bool := c == '"' || c == apostrophe

/-- A text without its first and last character. -/
def dropEnds (cs : List Char) : List Char := (cs.drop 1).dropLast

/-- Whether a text, given from its end, ends with a backslash that escapes what follows it. -/
def endsEscaping (backwards : List Char) : Bool :=
  (backwards.takeWhile (· == '\\')).length % 2 == 1

def endsTripled (q : Char) (cs : List Char) : Bool := [q, q, q].isSuffixOf cs

/-! ## Pieces -/

/-- Extends single-quoted pieces over double quotes until the last piece lies outside quotes. The
second part is what is left of the pieces between double quotes. -/
def closeSingles : List (List Char) → List (List Char) → List (List Char) × List (List Char)
  | singles, [] => (singles, [])
  | singles, d :: ds =>
    if singles.length % 2 == 0 then
      let last := singles.getLast?.getD [] ++ '"' :: d
      closeSingles (singles.dropLast ++ Text.splitAt apostrophe last) ds
    else (singles, d :: ds)

/-- Pieces between double quotes, the first of them cut at single quotes too. -/
def cutFirstAtSingles : List (List Char) → List (List Char)
  | [] => []
  | d :: ds => Text.splitAt apostrophe d ++ ds

/-- The pieces of a line at its quotes, outside and inside by turns. -/
def piecesAtQuotes (line : List Char) : List (List Char) :=
  match Text.splitAt '"' line with
  | d :: e :: ds =>
    if d.contains apostrophe then
      let (singles, left) := closeSingles (Text.splitAt apostrophe d) (e :: ds)
      singles ++ cutFirstAtSingles left
    else cutFirstAtSingles (d :: e :: ds)
  | ds => cutFirstAtSingles ds

/-- From the pieces at quotes, how many cuts at `sep` reach the first one outside quotes, when
`n` do so far. -/
def cutsFrom (sep : List Char) : Nat → Bool → List (List Char) → Nat
  | n, _, [] => n
  | n, quoted, p :: ps =>
    if !quoted && Text.occursIn sep p then n
    else cutsFrom sep (n + Text.timesIn sep p) (!quoted) ps

/-- How many cuts at `sep` reach the first one outside quotes. -/
def cutsFor (sep line : List Char) : Nat := cutsFrom sep 1 false (piecesAtQuotes line)

/-! ## Escapes -/

def escape? : Char → Option Char
  | '0' => some '\x00'
  | 'b' => some '\x08'
  | 'f' => some '\x0c'
  | 'n' => some '\n'
  | 'r' => some '\r'
  | 't' => some '\t'
  | '"' => some '"'
  | _ => none

/-- Replaces the escapes of single characters. Those of code points stay. -/
def unescape : List Char → Reading (List Char)
  | '\\' :: e :: r =>
    match escape? e with
    | some c => (c :: ·) <$> unescape r
    | none =>
      if e == '\\' then ('\\' :: ·) <$> unescape r
      else if e == 'u' || e == 'U' then ('\\' :: e :: ·) <$> unescape r
      else malformed
  | c :: r => (c :: ·) <$> unescape r
  | [] => .ok []

/-- The character with the code point `n`. A surrogate half is no character. -/
def charOf? (n : Nat) : Option Char :=
  if n.isValidChar then some (Char.ofNat n)
  else if n < 0x110000 then some '�'
  else none

/-- The character whose code point at most `width` hexadecimal digits at the front of a text write,
and what follows them. Digits that begin like a surrogate half and numbers that no code point has
are refused, and numbers beyond 31 bits are out of range. -/
def codePoint (width : Nat) (cs : List Char) : Reading (Char × List Char) :=
  match (cs.take width).mapM Json.hexValue? with
  | none => malformed
  | some [] => pastEnd
  | some (d :: ds) =>
    let n := (d :: ds).foldl (fun n d => 16 * n + d) 0
    if d == 13 && ds.isEmpty then pastEnd
    else if d == 13 && ds.head?.any (8 ≤ ·) then malformed
    else if 0x80000000 ≤ n then .error (.fault .outOfRange)
    else
      match charOf? n with
      | some c => .ok (c, cs.drop width)
      | none => malformed

/-- Replaces the code points after each of the pieces that `mark` has cut. A mark behind a backslash
that escapes it stays, and so does its piece. -/
def codePointsFrom (mark : List Char) (width : Nat) : Bool → List (List Char) → Reading (List Char)
  | _, [] => .ok []
  | true, p :: ps => (mark ++ p ++ ·) <$> codePointsFrom mark width (endsEscaping p.reverse) ps
  | false, p :: ps => do
    let (c, r) ← codePoint width p
    return c :: r ++ (← codePointsFrom mark width false ps)

def codePoints (mark : List Char) (width : Nat) (cs : List Char) : Reading (List Char) :=
  match Text.splitOn mark cs with
  | [] => .ok []
  | p :: ps => (p ++ ·) <$> codePointsFrom mark width (endsEscaping p.reverse) ps

/-- Whether the pieces after backslashes begin with what may be escaped. An empty piece is an
escaped backslash or the rest of one. -/
def areEscapes : Bool → List (List Char) → Bool
  | _, [] => true
  | escaped, [] :: ps => areEscapes (!escaped) ps
  | escaped, (c :: _) :: ps =>
    ((escape? c).isSome || c == 'u' || c == 'U' || escaped) && areEscapes false ps

/-! ## Texts -/

/-- Whether something follows the closing quote, by the pieces at quotes. In a text of several lines
two empty pieces in a row come before the close. -/
def hasTail (tripled : Bool) : Bool → Nat → List (List Char) → Bool
  | _, _, [] => false
  | closed, empty, [] :: ps =>
    if tripled then hasTail tripled closed (empty + 1) ps else hasTail tripled true empty ps
  | closed, empty, (c :: p) :: ps =>
    if endsEscaping (c :: p).reverse then hasTail tripled closed empty ps
    else closed ||
      if !tripled || 1 < empty then hasTail tripled true empty ps else hasTail tripled closed 0 ps

def isFollowed (q : Char) (cs : List Char) : Bool :=
  match Text.splitAt q (cs.drop 1) with
  | [] :: [] :: ps => hasTail true false 0 ps
  | ps => hasTail false false 0 ps

def unescapeAll (cs : List Char) : Reading (List Char) := do
  if areEscapes false ((Text.splitAt '\\' cs).drop 1) then
    unescape (← codePoints ['\\', 'U'] 8 (← codePoints ['\\', 'u'] 4 cs))
  else malformed

/-- Takes the quotes `q` off a text, three at each end or one. -/
def stripQuotes (q : Char) (cs : List Char) : List Char :=
  match cs with
  | _ :: a :: r =>
    if a == q && (r.isEmpty || r.head? == some q) then dropEnds (r.dropLast.dropLast)
    else dropEnds cs
  | _ => dropEnds cs

def quotedText (q : Char) (cs : List Char) : Reading String := do
  if isFollowed q cs then malformed
  else return String.ofList (stripQuotes q (← if q == '"' then unescapeAll cs else pure cs))

end ImportAtlas.Toml
