import ImportAtlas.Decimal.Binary

/-!
# Decimal digits of a double

`shortest` finds the fewest digits that read back as the same double, and of those the closest to
it. `significant` rounds to a given number of digits, `fixed` to a given number of places. The
digits of all three are those of the exact value; a half goes to the even neighbour.
-/

namespace ImportAtlas

/-- A positive decimal: its digits stand right after the point of `0.d₁d₂… * 10 ^ point`. -/
structure Decimal where
  digits : List Nat
  point : Int
  deriving DecidableEq, Repr

namespace Decimal

/-- The decimal digits of a number, leading digit first. -/
def digitsOf (n : Nat) : List Nat := (Nat.toDigits 10 n).map fun c => c.toNat - 48

def dropTrailingZeros (ds : List Nat) : List Nat := (ds.reverse.dropWhile (· == 0)).reverse

/-- `count * 10 ^ unit` as a decimal without trailing zeros. -/
def ofCount (count : Nat) (unit : Int) : Decimal :=
  let ds := digitsOf count
  ⟨dropTrailingZeros ds, ds.length + unit⟩

/-- `n / d` measured in units of `10 ^ unit`: a quotient of whole numbers. -/
def inUnits (n d : Nat) (unit : Int) : Nat × Nat :=
  if 0 ≤ unit then (n, d * Nat.pow 10 unit.toNat) else (n * Nat.pow 10 (-unit).toNat, d)

/-- The point `k` with `10 ^ (k - 1) ≤ n / d < 10 ^ k`, for positive `n` and `d`. -/
def pointOf (n d : Nat) : Int :=
  if d ≤ n then (Nat.toDigits 10 (n / d)).length
  else
    -- the least shift that brings the value to at least one
    let rec shift : Nat → Nat → Nat → Nat
      | 0, _, k => k
      | fuel + 1, m, k => if d ≤ m then k else shift fuel (m * 10) (k + 1)
    1 - (shift (Nat.log2 d + 1) n 0 : Int)

/-- Of the two neighbours of `n / d` on the grid of `count` digits, the nearest that lies between
`lo / d` and `hi / d`, where the ends count only if `closed`. -/
def hit? (n lo hi d : Nat) (closed : Bool) (point : Int) (count : Nat) : Option Decimal :=
  let unit := point - count
  let (p, q) := inUnits n d unit
  let within (c : Nat) : Bool :=
    let (a, b) := inUnits lo d unit
    let (e, f) := inUnits hi d unit
    if closed then a ≤ c * b && c * f ≤ e else a < c * b && c * f < e
  let below := p / q
  let above := below + 1
  match within below, within above with
  | true, true =>
    let c := if 2 * p < (below + above) * q then below
      else if (below + above) * q < 2 * p then above
      else if below % 2 = 0 then below else above
    some (ofCount c unit)
  | true, false => some (ofCount below unit)
  | false, true => some (ofCount above unit)
  | false, false => none

/-- The fewest digits that read back as the positive double `m * 2 ^ e`. -/
def shortest (m : Nat) (e : Int) : Decimal :=
  -- quarters of the last binary place, so that the ends of the interval are whole
  let up := 4 * Nat.pow 2 e.toNat
  let d := 4 * Nat.pow 2 (-e).toNat
  let n := m * up
  let hi := n + up / 2
  let lo := if m = Nat.pow 2 52 && Binary.lowestExponent < e then n - up / 4 else n - up / 2
  let point := pointOf n d
  ((List.range 17).findSome? fun i => hit? n lo hi d (m % 2 == 0) point (i + 1)).getD ⟨[], 0⟩

/-- The positive value `n / d` rounded to `count` digits. -/
def significant (n d count : Nat) : Decimal :=
  let unit := pointOf n d - count
  let (p, q) := inUnits n d unit
  ofCount (Binary.roundDiv p q) unit

/-- `n / d` in units of `10 ^ -places`, rounded to a whole number of them. -/
def fixed (n d places : Nat) : Nat := Binary.roundDiv (n * Nat.pow 10 places) d

end Decimal

end ImportAtlas
