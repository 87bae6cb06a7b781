import ImportAtlas.Decimal.Digits

/-!
# Doubles as text

One layout serves the two styles in use: the shortest digits of a value in a document or a message
(`Layout.exact`), and six digits for a threshold shown to a person (`Layout.brief`). `fixedText`
writes a given number of places and `roundPlaces` rounds a double to them.
-/

namespace ImportAtlas

/-- How digits are laid out around the point. -/
structure Layout where
  /-- Values whose point lies further right are written with an exponent. -/
  highestPoint : Int
  /-- Values whose point lies further left are written with an exponent. -/
  lowestPoint : Int
  /-- A whole value is written with the fraction `.0`. -/
  keepsFraction : Bool

namespace Layout

/-- Positional from a ten-thousandth to below 10¹⁶; a whole value keeps `.0`. -/
def exact : Layout := ⟨16, -3, true⟩

/-- Positional from a ten-thousandth to below 10⁶; a whole value has no fraction. -/
def brief : Layout := ⟨6, -3, false⟩

def chars (ds : List Nat) : String := String.ofList (ds.map fun d => Char.ofNat (d + 48))

def zeros (n : Nat) : String := String.ofList (List.replicate n '0')

/-- An exponent has a sign and at least two digits. -/
def exponent (e : Int) : String :=
  let ds := toString e.natAbs
  (if e < 0 then "e-" else "e+") ++ (if ds.length < 2 then "0" ++ ds else ds)

def text (l : Layout) (x : Decimal) : String :=
  let count : Int := x.digits.length
  if x.point < l.lowestPoint || l.highestPoint < x.point then
    chars (x.digits.take 1) ++ (if x.digits.length ≤ 1 then "" else "." ++ chars (x.digits.drop 1)) ++
      exponent (x.point - 1)
  else if x.point ≤ 0 then "0." ++ zeros (-x.point).toNat ++ chars x.digits
  else if x.point < count then
    chars (x.digits.take x.point.toNat) ++ "." ++ chars (x.digits.drop x.point.toNat)
  else
    chars x.digits ++ zeros (x.point - count).toNat ++ (if l.keepsFraction then ".0" else "")

end Layout

namespace Binary

def signText (negative : Bool) : String := if negative then "-" else ""

/-- The fewest digits that read back as the same double. -/
def exactText (x : Float) : String :=
  match ofFloat x with
  | .nan => "nan"
  | .infinite s => signText s ++ "inf"
  | .finite s 0 _ => signText s ++ "0.0"
  | .finite s m e => signText s ++ Layout.exact.text (Decimal.shortest m e)

/-- Six digits, trailing zeros dropped. -/
def briefText (x : Float) : String :=
  match ofFloat x with
  | .nan => "nan"
  | .infinite s => signText s ++ "inf"
  | .finite s 0 _ => signText s ++ "0"
  | .finite s m e =>
    let (n, d) := scaled m e
    signText s ++ Layout.brief.text (Decimal.significant n d 6)

/-- A count of `10 ^ -places` written with its point. -/
def placesText (places count : Nat) : String :=
  let whole := toString (count / Nat.pow 10 places)
  if places = 0 then whole
  else
    let part := toString (count % Nat.pow 10 places)
    whole ++ "." ++ Layout.zeros (places - part.length) ++ part

/-- The value with exactly `places` decimal places. -/
def fixedText (places : Nat) (x : Float) : String :=
  match ofFloat x with
  | .nan => "nan"
  | .infinite s => signText s ++ "inf"
  | .finite s m e =>
    let (n, d) := scaled m e
    signText s ++ placesText places (Decimal.fixed n d places)

/-- The double nearest to the value rounded to `places` decimal places. -/
def roundPlaces (places : Nat) (x : Float) : Float :=
  match ofFloat x with
  | .finite s m e =>
    let (n, d) := scaled m e
    nearest s (Decimal.fixed n d places) (Nat.pow 10 places)
  | _ => x

/-- The double nearest to `digits * 10 ^ exponent`. Exponents far outside the range of doubles
are decided by size, without forming the power. -/
def ofScientific (negative : Bool) (digits : Nat) (exponent : Int) : Float :=
  let size : Int := (Nat.toDigits 10 digits).length + exponent
  if digits = 0 || size < -400 then pack negative 0 0
  else if 400 < size then infinity negative
  else if 0 ≤ exponent then nearest negative (digits * Nat.pow 10 exponent.toNat) 1
  else nearest negative digits (Nat.pow 10 (-exponent).toNat)

end Binary

end ImportAtlas
