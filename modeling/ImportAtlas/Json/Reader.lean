import ImportAtlas.Json.Basic
import ImportAtlas.Text.Search

/-!
# Reading a JSON text

The grammar is that of JSON with three more numbers, `NaN`, `Infinity` and `-Infinity`. White space
is the space, the tab and the line ends. A number with a fraction or an exponent is a double, all
others are whole numbers of up to `Number.digitLimit` digits. The last value under a repeated key wins.
-/

namespace ImportAtlas.Json

variable {τ : Type}

inductive ReadError where
  /-- The text does not follow the grammar. -/
  | malformed
  /-- A whole number has more digits than are read. -/
  | tooManyDigits
  deriving DecidableEq, Repr

def isSpace (c : Char) : Bool := c == ' ' || c == '\t' || c == '\n' || c == '\r'

def skipSpace (cs : List Char) : List Char := cs.dropWhile isSpace

def hexValue? (c : Char) : Option Nat :=
  if '0' ≤ c && c ≤ '9' then some (c.toNat - '0'.toNat)
  else if 'a' ≤ c && c ≤ 'f' then some (c.toNat - 'a'.toNat + 10)
  else if 'A' ≤ c && c ≤ 'F' then some (c.toNat - 'A'.toNat + 10)
  else none

def unit? (a b c d : Char) : Option UInt16 := do
  let w ← hexValue? a
  let x ← hexValue? b
  let y ← hexValue? c
  let z ← hexValue? d
  return .ofNat (((w * 16 + x) * 16 + y) * 16 + z)

/-- What the character after a backslash stands for. -/
def shortEscape? : Char → Option Char
  | '"' => some '"'
  | '\\' => some '\\'
  | '/' => some '/'
  | 'b' => some '\x08'
  | 'f' => some '\x0c'
  | 'n' => some '\n'
  | 'r' => some '\r'
  | 't' => some '\t'
  | _ => none

/-- The code units of a text up to its closing quote. -/
def readUnits : List Char → Option (List UInt16 × List Char)
  | [] => none
  | '"' :: cs => some ([], cs)
  | '\\' :: 'u' :: a :: b :: c :: d :: cs => do
    let u ← unit? a b c d
    let (us, rest) ← readUnits cs
    return (u :: us, rest)
  | '\\' :: e :: cs => do
    let c ← shortEscape? e
    let (us, rest) ← readUnits cs
    return (unitsOf c ++ us, rest)
  | c :: cs =>
    if c.toNat < 32 || c == '\\' then none
    else do
      let (us, rest) ← readUnits cs
      return (unitsOf c ++ us, rest)

def readString [Wording τ] (cs : List Char) : Except ReadError (τ × List Char) :=
  match readUnits cs with
  | some (us, rest) => .ok (Wording.ofUnits us, rest)
  | none => .error .malformed

def digitRun (cs : List Char) : List Char × List Char :=
  (cs.takeWhile Char.isDigit, cs.dropWhile Char.isDigit)

def digitsValue (ds : List Char) : Nat := Number.ofDigits (ds.map fun c => c.toNat - 48)

/-- A fraction, if a point and a digit stand at the front. -/
def readFraction : List Char → List Char × List Char
  | '.' :: cs =>
    match digitRun cs with
    | ([], _) => ([], '.' :: cs)
    | found => found
  | cs => ([], cs)

/-- An exponent, if its mark and a digit stand at the front. -/
def readExponent (cs : List Char) : Option Int × List Char :=
  match cs with
  | e :: rest =>
    if e == 'e' || e == 'E' then
      let (negative, r) := Number.cutSign rest
      match digitRun r with
      | ([], _) => (none, cs)
      | (ds, r) => (some (Binary.signed negative (digitsValue ds)), r)
    else (none, cs)
  | [] => (none, cs)

/-- The digits before the point: a zero alone, or digits that do not start with one. -/
def readWhole : List Char → Option (List Char × List Char)
  | '0' :: cs => some (['0'], cs)
  | cs =>
    match digitRun cs with
    | ([], _) => none
    | found => some found

def readUnsigned (negative : Bool) (cs : List Char) : Except ReadError (Number × List Char) :=
  match readWhole cs with
  | none => .error .malformed
  | some (whole, r) =>
    let (fraction, r) := readFraction r
    let (exponent, r) := readExponent r
    if fraction.isEmpty && exponent.isNone then
      if Number.digitLimit < whole.length then .error .tooManyDigits
      else .ok (.int (Binary.signed negative (digitsValue whole)), r)
    else
      let x := Binary.ofScientific negative (digitsValue (whole ++ fraction))
        (exponent.getD 0 - fraction.length)
      .ok (.float x, r)

/-- The words of the grammar and what they stand for. -/
def constants : List (List Char × Json τ) :=
  [("null".toList, .null), ("true".toList, .bool true), ("false".toList, .bool false),
   ("NaN".toList, .float Binary.notANumber), ("Infinity".toList, .float (Binary.infinity false)),
   ("-Infinity".toList, .float (Binary.infinity true))]

def readNumber : List Char → Except ReadError (Number × List Char)
  | '-' :: cs => readUnsigned true cs
  | cs => readUnsigned false cs

def readScalar (cs : List Char) : Except ReadError (Json τ × List Char) :=
  match constants.findSome? fun (w, v) => (Text.after? w cs).map (v, ·) with
  | some found => .ok found
  | none => (readNumber cs).map fun (n, rest) => (.num n, rest)

mutual

def readValue [DecidableEq τ] [Wording τ] : Nat → List Char → Except ReadError (Json τ × List Char)
  | 0, _ => .error .malformed
  | _ + 1, '"' :: cs => do
    let (s, r) ← readString cs
    return (.str s, r)
  | fuel + 1, '[' :: cs =>
    match skipSpace cs with
    | ']' :: r => .ok (.arr [], r)
    | r => do
      let (vs, r) ← readItems fuel r
      return (.arr vs, r)
  | fuel + 1, '{' :: cs =>
    match skipSpace cs with
    | '}' :: r => .ok (.obj [], r)
    | r => do
      let (ms, r) ← readMembers fuel r
      return (ofMembers ms, r)
  | _ + 1, cs => readScalar cs

def readItems [DecidableEq τ] [Wording τ] :
    Nat → List Char → Except ReadError (List (Json τ) × List Char)
  | 0, _ => .error .malformed
  | fuel + 1, cs => do
    let (v, r) ← readValue fuel cs
    match skipSpace r with
    | ',' :: r => do
      let (vs, r) ← readItems fuel (skipSpace r)
      return (v :: vs, r)
    | ']' :: r => return ([v], r)
    | _ => .error .malformed

def readMembers [DecidableEq τ] [Wording τ] :
    Nat → List Char → Except ReadError (List (τ × Json τ) × List Char)
  | 0, _ => .error .malformed
  | fuel + 1, '"' :: cs => do
    let (k, r) ← readString cs
    match skipSpace r with
    | ':' :: r => do
      let (v, r) ← readValue fuel (skipSpace r)
      match skipSpace r with
      | ',' :: r => do
        let (ms, r) ← readMembers fuel (skipSpace r)
        return ((k, v) :: ms, r)
      | '}' :: r => return ([(k, v)], r)
      | _ => .error .malformed
    | _ => .error .malformed
  | _ + 1, _ => .error .malformed

end

/-- Reads a whole text as one value. Every rule consumes a character within two steps, which
bounds the number of steps. -/
def parse [DecidableEq τ] [Wording τ] (s : String) : Except ReadError (Json τ) :=
  let cs := s.toList
  match readValue (2 * cs.length + 2) (skipSpace cs) with
  | .error e => .error e
  | .ok (v, r) => if (skipSpace r).isEmpty then .ok v else .error .malformed

end ImportAtlas.Json
