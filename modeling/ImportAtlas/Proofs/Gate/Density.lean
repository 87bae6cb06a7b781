import ImportAtlas.Proofs.Decimal.Value
import ImportAtlas.Proofs.Gate.Codes

/-!
# Many imports on average

The average of imports is judged as a double that was rounded to hundredths. Against a threshold that
is a whole number, the rule is broken exactly if the double nearest to the average exceeds the
threshold by more than half a hundredth. An average that exceeds it by less is let through.
-/

namespace ImportAtlas.Gate

variable {d : Document} {t : Thresholds} {now : Moment} {r : Result}

theorem Rule.code_eq_importDensity_iff (rule : Rule) :
    rule.code = "import_density" ↔ rule = .importDensity := by
  cases rule <;> decide

/-- The density of imports is found by the rule about the structure only. -/
theorem importDensity_mem_iff (h : WellShaped d) (hr : evaluate d t now = .ok r) :
    "import_density" ∈ r.codes ↔ Breaks d t now .importDensity := by
  classical
  obtain ⟨s, nodes, edges, hsizes⟩ := h.summary
  obtain ⟨n₁, f₁, n₂, f₂, c, age, f₄, n₅, f₅, h₁, h₂, h₃, h₄, h₅, hfindings⟩ :=
    findings_evaluate hr
  have hcycles : .importDensity ∉ f₁.toList.map (·.rule) := by
    rw [← Option.toList_map, (checkCount_eq_ok h₁).2]
    split <;> simp
  have hunused : .importDensity ∉ f₂.toList.map (·.rule) := by
    rw [← Option.toList_map, (checkCount_eq_ok h₂).2]
    split <;> simp
  have hcodes : "import_density" ∈ r.codes ↔ .importDensity ∈ r.findings.map (·.rule) := by
    simp only [Result.codes, List.mem_map, Rule.code_eq_importDensity_iff]
  rw [hcodes, hfindings]
  simp only [List.map_append, List.mem_append, hcycles, hunused, false_or,
    rules_checkStructure now ⟨s, hsizes⟩ h₃, rules_checkAge h h₄, rules_checkTypeFiles t now h h₅]
  simp

/-- Whole numbers from zero on are divided as quotients. -/
theorem divide_nat_eq_ok_iff {m n : Nat} {x : Float} :
    divide (.int m) (.int n) = .ok x ↔ Binary.nearest? false m n = some x := by
  have hsign (k : Nat) : decide ((k : Int) < 0) = false := decide_eq_false (by omega)
  simp only [divide, Json.asNumber?, hsign, bne_self_eq_false, Int.natAbs_natCast]
  cases Binary.nearest? false m n <;> simp

/-- The rule at a threshold that is a whole number. -/
theorem breaks_importDensity_iff {nodes edges bound : Nat} {x : Float} (hsizes : Sizes d nodes edges)
    (hnodes : 0 < nodes) (hedges : 0 < edges) (hbound : t.averageImports = .int bound)
    (hx : Binary.nearest? false edges nodes = some x) :
    Breaks d t now .importDensity ↔ (200 * bound + 1 : ℚ) < 200 * (Binary.ofFloat x).value := by
  obtain ⟨m, e, hparts, -⟩ := Binary.ofFloat_of_nearest? hnodes hx
  obtain ⟨hfinite, hround⟩ := Binary.lt_value_roundPlaces_iff hparts
  have hlt : t.averageImports.lt (.float (Binary.roundPlaces 2 x)) = true ↔
      (200 * bound + 1 : ℚ) < 200 * (Binary.ofFloat x).value := by
    rw [hbound, Number.int_lt_float_iff hfinite, Int.cast_natCast, hround]
  rw [← hlt]
  constructor
  · rintro ⟨nodes', edges', x', hsizes', -, -, hx', hless⟩
    obtain ⟨rfl, rfl⟩ := hsizes.unique hsizes'
    rw [divide_nat_eq_ok_iff, hx, Option.some.injEq] at hx'
    rwa [hx']
  · intro hless
    exact ⟨nodes, edges, x, hsizes, by omega, by omega, divide_nat_eq_ok_iff.2 hx, hless⟩

/-- The structure can be judged unless the average is too large for a double. -/
theorem exists_checkStructure_nat_iff {nodes edges bound : Nat} (hsizes : Sizes d nodes edges)
    (hnodes : 0 < nodes) (hbound : t.averageImports = .int bound) :
    (∃ c, checkStructure d t = .ok c) ↔ edges < Binary.limit * nodes := by
  rw [exists_checkStructure_iff t hsizes, Int.natAbs_natCast, Int.natAbs_natCast]
  constructor
  · rintro ⟨hlt, -⟩
    exact hlt (by omega)
  · intro hlt
    refine ⟨fun _ => hlt, fun _ _ x hx hless => ?_⟩
    obtain ⟨m, e, hparts, -⟩ := Binary.ofFloat_of_nearest? hnodes (divide_nat_eq_ok_iff.1 hx)
    have hfinite := (Binary.lt_value_roundPlaces_iff hparts).1
    have hnonneg : (Number.int 0).le t.averageImports = true := by
      rw [hbound, Number.le, Number.compare?_int]
      rcases Nat.eq_zero_or_pos bound with rfl | hpos
      · rfl
      · rw [compare_lt_iff_lt.2 (by omega)]
        rfl
    exact Option.isSome_iff_ne_none.1 (Number.toFloat?_isSome_of_lt hnonneg hfinite hless)

/-- Against a threshold that is a whole number, a graph with nodes and edges has too many imports
exactly if the double nearest to the average exceeds the threshold by more than half a hundredth. So
the average exceeds a threshold that is itself a double whenever the rule says so, and the rule says
so whenever the average exceeds a threshold that is not too large by a hundredth. -/
theorem density_reported_iff (d : Document) (t : Thresholds) (now : Moment)
    (nodes edges bound : Nat) (hshape : shapeError? d = none) (hsizes : Sizes d nodes edges)
    (hnodes : 1 ≤ nodes) (hedges : 1 ≤ edges) (hbound : t.averageImports = .int bound) :
    ((∃ c, checkStructure d t = .ok c) ↔ edges < Binary.limit * nodes) ∧
    ∀ r, evaluate d t now = .ok r → ∃ x, Binary.nearest? false edges nodes = some x ∧
      ("import_density" ∈ r.codes ↔
        (200 * bound + 1 : ℚ) < 200 * (Binary.ofFloat x).value) ∧
      (bound ≤ 2 ^ 53 → "import_density" ∈ r.codes → bound * nodes < edges) ∧
      (bound < 2 ^ 46 → (100 * bound + 1) * nodes ≤ 100 * edges → "import_density" ∈ r.codes) := by
  have hjudged := exists_checkStructure_nat_iff hsizes hnodes hbound
  have hn : (0 : ℚ) < nodes := by exact_mod_cast hnodes
  refine ⟨hjudged, fun r hr => ?_⟩
  obtain ⟨-, -, hstructure, -⟩ := exists_evaluate_iff.1 ⟨r, hr⟩
  have hsome : Binary.nearest? false edges nodes ≠ none := by
    rw [ne_eq, Binary.nearest?_eq_none_iff false hnodes, Nat.not_le]
    exact hjudged.1 hstructure
  obtain ⟨x, hx⟩ := Option.ne_none_iff_exists'.1 hsome
  have hreported : "import_density" ∈ r.codes ↔
      (200 * bound + 1 : ℚ) < 200 * (Binary.ofFloat x).value := by
    rw [importDensity_mem_iff (shapeError?_eq_none_iff.1 hshape) hr,
      breaks_importDensity_iff hsizes hnodes hedges hbound hx]
  refine ⟨x, hx, hreported, fun hsmall hmem => ?_, fun hsmall hmore => hreported.2 ?_⟩
  · by_contra hle
    have hquotient : (edges : ℚ) / nodes ≤ bound * 2 ^ (0 : Int) := by
      rw [zpow_zero, mul_one, div_le_iff₀ hn]
      exact_mod_cast Nat.not_lt.1 hle
    have hvalue := Binary.value_nearest?_le hnodes hsmall (by decide) hx hquotient
    rw [zpow_zero, mul_one] at hvalue
    linarith [hreported.1 hmem]
  · have hquotient : ((128 * bound + 1 : Nat) : ℚ) * 2 ^ (-7 : Int) ≤ edges / nodes := by
      have hmore : (100 * bound + 1 : ℚ) * nodes ≤ 100 * edges := by exact_mod_cast hmore
      rw [le_div_iff₀ hn]
      norm_num
      nlinarith
    have hvalue := Binary.le_value_nearest? hnodes (by omega) (by decide) hx hquotient
    norm_num at hvalue
    linarith

/-- A report that says no more than the size of its graph. -/
def sizedReport (nodes edges : Nat) : Document :=
  [("summary", .obj [("totalNodes", .int nodes), ("totalEdges", .int edges)])]

/-- The usual thresholds but for the average. -/
def averageAtMost (bound : Nat) : Thresholds := { Thresholds.default with averageImports := .int bound }

theorem sizes_sizedReport (nodes edges : Nat) : Sizes (sizedReport nodes edges) nodes edges :=
  ⟨_, rfl, rfl, rfl⟩

theorem sizedReport_reported :
    ∃ r, evaluate (sizedReport 300 605) (averageAtMost 2) ⟨0, 0⟩ = .ok r ∧
      "import_density" ∈ r.codes := by
  obtain ⟨r, hr, -⟩ := toOption_map_eq_some_iff.1 (by decide +kernel :
    (evaluate (sizedReport 300 605) (averageAtMost 2) ⟨0, 0⟩).toOption.map Result.codes =
      some ["import_density"])
  obtain ⟨-, hreported⟩ := density_reported_iff _ (averageAtMost 2) ⟨0, 0⟩ 300 605 2
    (by decide +kernel) (sizes_sizedReport 300 605) (by decide) (by decide) rfl
  obtain ⟨x, -, -, -, habove⟩ := hreported r hr
  exact ⟨r, hr, habove (by decide) (by decide)⟩

/-- An average above the threshold is let through, and where whole numbers are no longer doubles one
at the threshold is reported. -/
theorem sizedReport_misjudged :
    (2 * 1000 < 2001 ∧ ∃ r, evaluate (sizedReport 1000 2001) (averageAtMost 2) ⟨0, 0⟩ = .ok r ∧
      "import_density" ∉ r.codes) ∧
    ∃ r, evaluate (sizedReport 1 (2 ^ 53 + 3)) (averageAtMost (2 ^ 53 + 3)) ⟨0, 0⟩ = .ok r ∧
      "import_density" ∈ r.codes := by
  obtain ⟨r, hr, hcodes⟩ := toOption_map_eq_some_iff.1 (by decide +kernel :
    (evaluate (sizedReport 1000 2001) (averageAtMost 2) ⟨0, 0⟩).toOption.map Result.codes =
      some [])
  obtain ⟨r', hr', hcodes'⟩ := toOption_map_eq_some_iff.1 (by decide +kernel :
    (evaluate (sizedReport 1 (2 ^ 53 + 3)) (averageAtMost (2 ^ 53 + 3)) ⟨0, 0⟩).toOption.map
      Result.codes = some ["import_density"])
  exact ⟨⟨by decide, r, hr, by simp [hcodes]⟩, r', hr', by simp [hcodes']⟩

end ImportAtlas.Gate
