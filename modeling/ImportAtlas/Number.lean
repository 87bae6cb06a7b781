import ImportAtlas.Decimal.Text
import ImportAtlas.Text.Blank
import ImportAtlas.Text.Digit

/-!
# Numbers of a document

A document tells whole numbers of any size from doubles. Both are ordered by their exact values,
so a large whole number is never rounded before it is compared.
-/

namespace ImportAtlas

/-- A whole number of any size, or a double. -/
inductive Number where
  | int (i : Int)
  | float (x : Float)

namespace Number

def exact : Number → Binary
  | int i => .ofInt i
  | float x => .ofFloat x

/-- The order of two numbers; none if one of them is no number. -/
def compare? (a b : Number) : Option Ordering := a.exact.compare? b.exact

/-- `a < b`; false if one of them is no number. -/
def lt (a b : Number) : Bool := a.compare? b == some .lt

def le (a b : Number) : Bool := a.compare? b == some .lt || a.compare? b == some .eq

/-- Equal in value; what is no number equals itself only. -/
def same (a b : Number) : Bool :=
  a.compare? b == some .eq || (a.exact == .nan && b.exact == .nan)

/-- Neither zero nor the negative zero. -/
def isNonzero (a : Number) : Bool := a.compare? (int 0) != some .eq

/-- Decimal digits for a whole number, the shortest digits for a double. -/
def text : Number → String
  | int i => toString i
  | float x => Binary.exactText x

/-- The nearest double; none if a whole number is too large for one. -/
def toFloat? : Number → Option Float
  | int i => Binary.ofInt? i
  | float x => some x

/-- More digits than this are not read as a whole number. -/
def digitLimit : Nat := 4300

/-- Digits of any script with single low lines between them, as their values. -/
def groupedDigits? : List Char → Option (List Nat)
  | [] => none
  | c :: cs => do
    let d ← Text.digitValue? c
    match cs with
    | [] => some [d]
    | '_' :: rest => (groupedDigits? rest).map (d :: ·)
    | rest => (groupedDigits? rest).map (d :: ·)

def ofDigits (ds : List Nat) : Nat := ds.foldl (fun n d => 10 * n + d) 0

/-- The sign in front of a text, and what follows it. -/
def cutSign : List Char → Bool × List Char
  | '-' :: cs => (true, cs)
  | '+' :: cs => (false, cs)
  | cs => (false, cs)

/-- Blanks that may stand around a number: all but the four separators of ASCII. -/
def isMargin (c : Char) : Bool := Text.isBlank c && !(0x1c ≤ c.toNat && c.toNat ≤ 0x1f)

def withoutMargin (cs : List Char) : List Char := Text.trimBoth isMargin cs

/-- A whole number in a text: blanks around it, an optional sign, digits in groups. -/
def ofText? (s : String) : Option Int :=
  let (negative, body) := cutSign (withoutMargin s.toList)
  (groupedDigits? body).bind fun ds =>
    if digitLimit < ds.length then none else some (Binary.signed negative (ofDigits ds))

/-- Whether a character is a digit of some script or a low line between digits. -/
def isDigitOrLine (c : Char) : Bool := (Text.digitValue? c).isSome || c == '_'

/-- The digits in front of a text, perhaps none, and what follows them. -/
def cutDigits? (cs : List Char) : Option (List Nat × List Char) :=
  match cs.takeWhile isDigitOrLine with
  | [] => some ([], cs)
  | run => (groupedDigits? run).map fun ds => (ds, cs.dropWhile isDigitOrLine)

def cutFraction? : List Char → Option (List Nat × List Char)
  | '.' :: cs => cutDigits? cs
  | cs => some ([], cs)

/-- An exponent that ends the text; zero if the text is empty. -/
def exponent? : List Char → Option Int
  | [] => some 0
  | c :: cs =>
    if c = 'e' || c = 'E' then
      let (negative, body) := cutSign cs
      (groupedDigits? body).map fun ds => Binary.signed negative (ofDigits ds)
    else none

/-- An unsigned double: a word for what is infinite or no number, or digits with an optional
fraction and exponent. -/
def unsignedDouble? (negative : Bool) (cs : List Char) : Option Float :=
  match String.ofList (cs.map Char.toLower) with
  | "inf" | "infinity" => some (Binary.infinity negative)
  | "nan" => some Binary.notANumber
  | _ => do
    let (whole, rest) ← cutDigits? cs
    let (fraction, rest) ← cutFraction? rest
    let e ← exponent? rest
    if whole.isEmpty && fraction.isEmpty then none
    else some (Binary.ofScientific negative (ofDigits (whole ++ fraction)) (e - fraction.length))

def doubleOfText? (s : String) : Option Float :=
  let (negative, body) := cutSign (withoutMargin s.toList)
  unsignedDouble? negative body

end Number

end ImportAtlas
