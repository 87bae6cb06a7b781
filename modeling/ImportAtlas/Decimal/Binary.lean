/-!
# Doubles as exact numbers

A finite double is a whole number times a power of two. `Binary.ofFloat` takes a double apart,
`Binary.nearest?` gives the double closest to a quotient of whole numbers, and `Binary.compare?`
orders exact values without rounding either side.
-/

namespace ImportAtlas

/-- What a double stands for: `mantissa * 2 ^ exponent`, an infinity, or no number at all. -/
inductive Binary where
  | nan
  | infinite (negative : Bool)
  | finite (negative : Bool) (mantissa : Nat) (exponent : Int)
  deriving DecidableEq, Repr

namespace Binary

/-- The least exponent of a double's last binary place. -/
def lowestExponent : Int := -1074

/-- Takes a double apart by its sign, exponent and fraction fields. -/
def ofFloat (x : Float) : Binary :=
  let bits : Nat := x.toBits.toNat
  let negative := bits / Nat.pow 2 63 == 1
  let field : Nat := bits / Nat.pow 2 52 % Nat.pow 2 11
  let fraction := bits % Nat.pow 2 52
  if field = 2047 then
    if fraction = 0 then .infinite negative else .nan
  else if field = 0 then .finite negative fraction lowestExponent
  else .finite negative (fraction + Nat.pow 2 52) ((field : Int) - 1 + lowestExponent)

/-- The double with the given sign, exponent field and fraction. -/
def pack (negative : Bool) (field fraction : Nat) : Float :=
  Float.ofBits (UInt64.ofNat
    ((if negative then Nat.pow 2 63 else 0) + field * Nat.pow 2 52 + fraction))

def infinity (negative : Bool) : Float := pack negative 2047 0

def notANumber : Float := pack false 2047 (Nat.pow 2 51)

/-- `n / d` rounded to a whole number, a half going to the even neighbour. -/
def roundDiv (n d : Nat) : Nat :=
  let q := n / d
  let r := n % d
  if 2 * r < d then q
  else if 2 * r > d then q + 1
  else if q % 2 = 0 then q else q + 1

/-- `n * 2 ^ e` as a quotient of whole numbers. -/
def scaled (n : Nat) (e : Int) : Nat × Nat :=
  if 0 ≤ e then (n * Nat.pow 2 e.toNat, 1) else (n, Nat.pow 2 (-e).toNat)

/-- The exponent `e` with `2 ^ e ≤ n / d < 2 ^ (e + 1)`, for positive `n` and `d`. -/
def magnitude (n d : Nat) : Int :=
  let guess : Int := (Nat.log2 n : Int) - Nat.log2 d
  let (p, q) := scaled d guess
  if n * q < p then guess - 1 else guess

/-- The double nearest to `n / d`, a half going to the even neighbour; none if it is too large. -/
def nearest? (negative : Bool) (n d : Nat) : Option Float :=
  if n = 0 then some (pack negative 0 0)
  else
    let place := max (magnitude n d - 52) lowestExponent
    let (p, q) := scaled d place
    let m := roundDiv (n * q) p
    -- rounding up may carry into the next binary place
    let (m, place) := if m = Nat.pow 2 53 then (Nat.pow 2 52, place + 1) else (m, place)
    if place > 971 then none
    else if m < Nat.pow 2 52 then some (pack negative 0 m)
    else some (pack negative (place - lowestExponent + 1).toNat (m - Nat.pow 2 52))

/-- The double nearest to a quotient, an infinity if it is too large. -/
def nearest (negative : Bool) (n d : Nat) : Float :=
  (nearest? negative n d).getD (infinity negative)

/-- The double nearest to a whole number; none if it is too large. -/
def ofInt? (i : Int) : Option Float := nearest? (i < 0) i.natAbs 1

/-- The exact value with its sign: a whole number and a power of two. -/
def signed (negative : Bool) (m : Nat) : Int := if negative then -m else m

/-- The order of `a * 2 ^ p` and `b * 2 ^ q`. -/
def compareScaled (a p b q : Int) : Ordering :=
  let low := min p q
  compare (a * Int.pow 2 (p - low).toNat) (b * Int.pow 2 (q - low).toNat)

/-- The order of two values; none if one of them is no number. -/
def compare? : Binary → Binary → Option Ordering
  | .nan, _ => none
  | _, .nan => none
  | .infinite s, .infinite t =>
    some (if s = t then .eq else if s then .lt else .gt)
  | .infinite s, .finite .. => some (if s then .lt else .gt)
  | .finite .., .infinite t => some (if t then .gt else .lt)
  | .finite s m p, .finite t n q => some (compareScaled (signed s m) p (signed t n) q)

def ofInt (i : Int) : Binary := .finite (i < 0) i.natAbs 0

/-- The whole number left when the fraction is cut off; none for infinities and no number. -/
def truncate? : Binary → Option Int
  | .finite s m e =>
    let (n, d) := scaled m e
    some (signed s (n / d))
  | _ => none

end Binary

end ImportAtlas
