import ImportAtlas.Types.Report
import ImportAtlas.Proofs.Decimal.Value
import Mathlib.Algebra.Order.BigOperators.Group.List

/-!
# The report on types agrees with itself

The types of a report are the definitions that were found, the most used first and otherwise in the
order in which they were found. So the unused ones stand at the end, and the smallest and the
largest number of uses are those of the last used type and of the first.
-/

namespace ImportAtlas

/-! ## The order of the types -/

namespace TypeReport

open TypeDefinition

variable {types : List TypeDefinition}

/-- The most used types come first. -/
def Falling (types : List TypeDefinition) : Prop :=
  types.Pairwise fun a b => b.useCount ≤ a.useCount

/-- The types that some file uses. -/
def used (r : TypeReport) : List TypeDefinition := r.types.filter (0 < ·.useCount)

end TypeReport

/-! ## Counts -/

namespace TypeSummary

variable {counts : List Nat}

/-- The mean as an exact number. -/
def exactMean (counts : List Nat) : ℚ := counts.sum / counts.length

/-- The mean lies between any bounds of the counts. -/
theorem exactMean_between {low high : Nat} (hne : counts ≠ [])
    (h : ∀ n ∈ counts, low ≤ n ∧ n ≤ high) :
    (low : ℚ) ≤ exactMean counts ∧ exactMean counts ≤ high := by
  have hpos : (0 : ℚ) < counts.length := by exact_mod_cast List.length_pos_iff.2 hne
  have hlow := List.card_nsmul_le_sum counts low fun n hn => (h n hn).1
  have hhigh := List.sum_le_card_nsmul counts high fun n hn => (h n hn).2
  rw [nsmul_eq_mul, Nat.cast_id] at hlow hhigh
  rw [exactMean, le_div_iff₀ hpos, div_le_iff₀ hpos]
  constructor
  · rw [mul_comm]
    exact_mod_cast hlow
  · rw [mul_comm]
    exact_mod_cast hhigh

/-- The mean as it is written: the exact number if it is whole, else the nearest double. -/
inductive WrittenMean (counts : List Nat) : Number → Prop
  | whole {n : Nat} : exactMean counts = n → WrittenMean counts (.int n)
  | rounded : WrittenMean counts (.float (Binary.nearest false counts.sum counts.length))

/-- Rounding does not lead out of bounds that are doubles. -/
theorem WrittenMean.between {a : Number} {low high : Nat} (ha : WrittenMean counts a)
    (hne : counts ≠ []) (h : ∀ n ∈ counts, low ≤ n ∧ n ≤ high) (hhigh : high ≤ 2 ^ 53) :
    (low : ℚ) ≤ a.exact.value ∧ a.exact.value ≤ high := by
  obtain ⟨hlow, hup⟩ := exactMean_between hne h
  cases ha with
  | whole hn =>
    rw [Number.exact, Binary.value_ofInt]
    rw [hn] at hlow hup
    exact_mod_cast And.intro hlow hup
  | rounded =>
    have hlength : 0 < counts.length := List.length_pos_iff.2 hne
    have hle : low ≤ high := by exact_mod_cast hlow.trans hup
    have hsum : (counts.sum : ℚ) < Binary.greatest * counts.length := by
      have hpos : (0 : ℚ) < counts.length := by exact_mod_cast hlength
      have hgreatest := Binary.lt_greatest_mul (n := 2 ^ 53) Nat.one_pos (by decide)
      rw [Nat.cast_one, mul_one] at hgreatest
      have hbound : (high : ℚ) < Binary.greatest :=
        lt_of_le_of_lt (by exact_mod_cast hhigh) hgreatest
      rw [exactMean, div_le_iff₀ hpos] at hup
      exact hup.trans_lt (mul_lt_mul_of_pos_right hbound hpos)
    obtain ⟨x, hx⟩ := Option.isSome_iff_exists.1 (Binary.nearest?_isSome false hlength hsum)
    have hexact : (Number.float (Binary.nearest false counts.sum counts.length)).exact =
        .ofFloat x := by
      rw [Number.exact, Binary.nearest, hx, Option.getD_some]
    rw [hexact]
    constructor
    · simpa using Binary.le_value_nearest? (p := 0) hlength (hle.trans hhigh) (by decide) hx
        (by simpa [exactMean] using hlow)
    · simpa using Binary.value_nearest?_le (p := 0) hlength hhigh (by decide) hx
        (by simpa [exactMean] using hup)

end TypeSummary

/-! ## The document -/

/-- The value at the end of a way of keys. -/
def Json.within? (v : Json) : List String → Option Json
  | [] => some v
  | key :: keys => (v.member? key).bind (·.within? keys)

namespace TypeReport

open TypeDefinition TypeSummary

/-- What the distribution in a document says of the used types, the most used of which is `first`
and the least used of which is `last`. -/
structure Distributed (used : List TypeDefinition) (distribution : Json)
    (first last : TypeDefinition) (median : Nat) (average : Number) : Prop where
  max_eq : distribution.within? ["max"] = some (.nat first.useCount)
  min_eq : distribution.within? ["min"] = some (.nat last.useCount)
  median_eq : distribution.within? ["median"] = some (.nat median)
  average_eq : distribution.within? ["average"] = some (.num average)
  one_le : 1 ≤ last.useCount
  medianBetween : last.useCount ≤ median ∧ median ≤ first.useCount
  meanBetween : (last.useCount : ℚ) ≤ exactMean (used.map useCount) ∧
    exactMean (used.map useCount) ≤ first.useCount
  written : WrittenMean (used.map useCount) average
  /-- The number that is written lies between too, where both are doubles. -/
  averageBetween : first.useCount ≤ 2 ^ 53 →
    (last.useCount : ℚ) ≤ average.exact.value ∧ average.exact.value ≤ first.useCount

/-- The document of a report agrees with the definitions that were found and with itself. -/
structure Consistent (definitions : List TypeDefinition) (r : TypeReport) : Prop where
  types : r.toJson.within? ["types"] = some (.arr (r.types.map typeJson))
  perm : r.types.Perm definitions
  sorted : r.types.Pairwise fun a b => b.useCount ≤ a.useCount
  /-- Types with the same number of uses stand in the order in which they were found. -/
  stable : ∀ n, r.types.filter (·.useCount = n) = definitions.filter (·.useCount = n)
  unused : r.toJson.within? ["unusedTypes"] =
    some (.arr ((r.types.filter (·.useCount = 0)).map unusedJson))
  tail : r.types = r.used ++ r.types.filter (·.useCount = 0)
  totalTypes : r.toJson.within? ["summary", "totalTypes"] = some (.nat r.types.length)
  usedTypes : r.toJson.within? ["summary", "usedTypes"] = some (.nat r.used.length)
  unusedTypes : r.toJson.within? ["summary", "unusedTypes"] =
    some (.nat (r.types.filter (·.useCount = 0)).length)
  complexity : ∃ simple complex : Nat,
    r.toJson.within? ["summary", "complexity", "simpleTypes"] = some (.nat simple) ∧
      r.toJson.within? ["summary", "complexity", "complexTypes"] = some (.nat complex) ∧
      complex = (r.types.filter (isComplexName ·.name)).length ∧ simple + complex = r.types.length
  distribution : (∃ t ∈ r.types, t.isUsed = true) → ∃ distribution first last median average,
    r.toJson.within? ["summary", "usageDistribution"] = some distribution ∧
      r.types.head? = some first ∧ r.used.getLast? = some last ∧
      Distributed r.used distribution first last median average

theorem Falling.counts {types : List TypeDefinition} (h : Falling types) :
    ((types.filter (0 < ·.useCount)).map useCount).Pairwise fun a b => b ≤ a :=
  List.pairwise_map.2 (List.Pairwise.filter _ h)

end TypeReport

end ImportAtlas
