import ImportAtlas.Gate.Rules
import ImportAtlas.Proofs.Decimal.Order
import ImportAtlas.Proofs.Except
import ImportAtlas.Proofs.Gate.Shape
import ImportAtlas.Proofs.Json.Storable
import ImportAtlas.Proofs.Moment.Bounds

/-!
# What the rules give on a well-shaped document

One lemma for each rule: it gives a result, the result carries what was counted, and a finding is
one of that rule. A run of the gate fails exactly on a finding of a critical rule.
-/

namespace ImportAtlas.Gate

/-- Thresholds that are numbers and not below zero. -/
structure Thresholds.NonNegative (t : Thresholds) : Prop where
  cycles : (Number.int 0).le t.cycles = true
  unused : (Number.int 0).le t.unused = true
  averageImports : (Number.int 0).le t.averageImports = true
  staleHours : (Number.int 0).le t.staleHours = true

/-! ## Lists -/

/-- Running through a list that is present gives its items, and nothing if it is missing. -/
theorem run_of_list {d : Document} {key : String}
    (h : ∀ v, d.lookup key = some v → ∃ vs, v = .arr vs) :
    run d key = .ok (items (d.lookup key)) := by
  unfold run member
  cases hkey : d.lookup key with
  | none => rfl
  | some v =>
    obtain ⟨vs, rfl⟩ := h v hkey
    cases vs <;> rfl

theorem count_of_list {d : Document} {listKey summaryKey : String} {vs : List Json}
    (h : d.lookup listKey = some (.arr vs)) : count d listKey summaryKey = .ok vs.length := by
  rw [count, h]

/-! ## Cycles -/

theorem exists_nodeNames {d : Document} (h : WellShaped d) : ∃ names, nodeNames d = .ok names := by
  have hgraph := h.graph
  have hnodes := h.nodes
  unfold graphNodes at hnodes
  unfold nodeNames member
  cases hlookup : d.lookup "graph" with
  | none => exact ⟨_, rfl⟩
  | some v =>
    rw [hlookup] at hnodes
    obtain rfl | ⟨g, rfl, hlist⟩ := hgraph v hlookup
    · exact ⟨_, rfl⟩
    · cases hg : g.lookup "nodes" with
      | none => cases g <;> exact ⟨[], by simp [Json.counts, Json.fieldD, hg]; rfl⟩
      | some nodes =>
        obtain ⟨vs, rfl⟩ := hlist nodes hg
        have hcounts : (Json.obj g).counts = true := by
          cases g with
          | nil => cases hg
          | cons m ms => rfl
        simp only [hg] at hnodes
        simp only [Option.getD_some, hcounts, if_true, Json.fieldD, hg, Json.elements, bind,
          Except.bind]
        refine exists_mapM ?_
        rintro ⟨id, name⟩ hmem
        obtain ⟨v, hv, heq⟩ := List.mem_filterMap.1 hmem
        split at heq
        · next n =>
          obtain ⟨id', hid, hpair⟩ := Option.map_eq_some_iff.1 heq
          cases hpair
          obtain ⟨i, rfl⟩ := hnodes _ hv n id rfl hid
          exact ⟨_, rfl⟩
        · cases heq

theorem exists_cycleText (names : NodeNames) {cycle : List Json}
    (h : ∀ u ∈ cycle, ∃ i, u = .int i) : ∃ text, cycleText names cycle = .ok text := by
  have hnames : ∃ texts, cycle.mapM (nodeName names) = .ok texts := by
    refine exists_mapM fun u hu => ?_
    obtain ⟨i, rfl⟩ := h u hu
    exact ⟨_, rfl⟩
  obtain ⟨texts, htexts⟩ := hnames
  exact ⟨_, by rw [cycleText, htexts]; rfl⟩

theorem exists_cycleTexts {d : Document} (h : WellShaped d) :
    ∃ texts, cycleTexts d = .ok texts := by
  obtain ⟨names, hnames⟩ := exists_nodeNames h
  unfold cycleTexts
  rw [hnames, run_of_list (h.lists "cycles" (by simp))]
  refine exists_mapM fun c hc => exists_cycleText names ?_
  obtain ⟨v, hv, heq⟩ := List.mem_filterMap.1 hc
  obtain ⟨vs, rfl, hvs⟩ := h.cycles v hv
  cases heq
  exact hvs

/-! ## Unused exports -/

theorem exists_unusedTexts {d : Document} (h : WellShaped d) :
    ∃ texts, unusedTexts d = .ok texts := by
  unfold unusedTexts
  rw [run_of_list (h.lists "unusedExports" (by simp))]
  exact ⟨_, rfl⟩

/-! ## Counts -/

/-- A count that exceeds its threshold can be shown beside it. -/
def Shown (n : Int) (threshold : Number) : Prop :=
  (Number.int n).le threshold = false →
    Json.numberWritable (.int n) = true ∧ Json.numberWritable threshold = true

/-- A threshold that is not below zero is no longer than a count above it. -/
theorem shown_of_nonneg {n : Int} {threshold : Number} (hn : Json.numberWritable (.int n) = true)
    (nonneg : (Number.int 0).le threshold = true) : Shown n threshold := by
  intro hle
  refine ⟨hn, ?_⟩
  cases threshold with
  | float x => rfl
  | int i =>
    rw [Number.int_le_int_iff] at nonneg
    rw [← Bool.not_eq_true, Number.int_le_int_iff] at hle
    rw [Json.writable_int_iff] at hn ⊢
    omega

section Counts

variable {d : Document} {rule : Rule} {listKey summaryKey things : String} {threshold : Number}
  {details : Except Fault (List String)}

/-- A count gives a result if it can be made and shown. -/
theorem exists_checkCount_iff (hdetails : ∃ texts, details = .ok texts) :
    (∃ r, checkCount d rule listKey summaryKey things threshold details = .ok r) ↔
      ∃ n, count d listKey summaryKey = .ok n ∧ Shown n threshold := by
  obtain ⟨texts, rfl⟩ := hdetails
  unfold checkCount
  cases hcount : count d listKey summaryKey with
  | error f => simp [bind, Except.bind]
  | ok n =>
    simp only [Except.ok.injEq, exists_eq_left', Shown, bind, Except.bind, pure, Except.pure]
    cases hle : (Number.int n).le threshold with
    | true => simp
    | false =>
      unfold numeral
      cases Json.numberWritable (.int n) <;> cases Json.numberWritable threshold <;> simp

/-- More things than tolerated are a finding, and nothing else is. -/
theorem checkCount_eq_ok {n : Int} {f : Option Finding}
    (h : checkCount d rule listKey summaryKey things threshold details = .ok (n, f)) :
    count d listKey summaryKey = .ok n ∧
      f.map (·.rule) = if (Number.int n).le threshold then none else some rule := by
  obtain ⟨m, hcount, h⟩ := bind_eq_ok_iff.1 h
  split at h
  · next hle =>
    cases h
    exact ⟨hcount, by rw [if_pos hle]; rfl⟩
  · next hle =>
    obtain ⟨texts, -, h⟩ := bind_eq_ok_iff.1 h
    obtain ⟨shown, -, h⟩ := bind_eq_ok_iff.1 h
    obtain ⟨bound, -, h⟩ := bind_eq_ok_iff.1 h
    cases h
    exact ⟨hcount, by rw [if_neg hle]; rfl⟩

end Counts

/-! ## The structure of the graph -/

/-- A quotient of whole numbers that are not too large is a double, also after rounding. -/
theorem divide_spec {m n : Int} (hm : m ≠ 0) (hn : n ≠ 0) (hlt : m.natAbs < 2 ^ 64) :
    ∃ x, divide (.int m) (.int n) = .ok x ∧
      ∀ places, Binary.IsFinite (Binary.roundPlaces places x) := by
  have hnum : 0 < m.natAbs := Int.natAbs_pos.2 hm
  have hden : 0 < n.natAbs := Int.natAbs_pos.2 hn
  have hsome := Binary.nearest?_isSome (decide (m < 0) != decide (n < 0)) hden
    (Binary.lt_greatest_mul hden hlt)
  obtain ⟨x, hx⟩ := Option.isSome_iff_exists.1 hsome
  refine ⟨x, by simp [divide, Json.asNumber?, hx], fun places => ?_⟩
  obtain ⟨s, e, hfloat, hs, he⟩ := Binary.ofFloat_of_nearest? hden hx
  refine Binary.isFinite_roundPlaces places hfloat hs ?_
  have hmagnitude : Binary.magnitude m.natAbs n.natAbs ≤ 63 := by
    refine Binary.magnitude_le_of_lt hnum hden ?_
    have hone : (1 : ℚ) ≤ n.natAbs := by exact_mod_cast hden
    calc (m.natAbs : ℚ) < 2 ^ ((63 : Int) + 1) := by exact_mod_cast hlt
      _ ≤ 2 ^ ((63 : Int) + 1) * n.natAbs := le_mul_of_one_le_right (by norm_num) hone
  omega

theorem exists_thresholdText {t : Number} {x : Float} (nonneg : (Number.int 0).le t = true)
    (hx : Binary.IsFinite x) (h : t.lt (.float x) = true) :
    ∃ text, thresholdText t = .ok text := by
  obtain ⟨y, hy⟩ := Option.isSome_iff_exists.1 (Number.toFloat?_isSome_of_lt nonneg hx h)
  exact ⟨Binary.briefText y, by rw [thresholdText, hy]⟩

theorem same_int_zero_iff (i : Int) : (.int i : Json).same (.int 0) = decide (i = 0) :=
  Number.same_int_zero i

/-- A graph without nodes, then one without edges, then one with too many imports a file. -/
theorem checkStructure_spec {d s : Document} (t : Thresholds) {nodes edges : Int}
    (hsummary : d.lookup "summary" = some (.obj s))
    (hnodes : s.lookup "totalNodes" = some (.int nodes))
    (hedges : s.lookup "totalEdges" = some (.int edges)) (hlt : edges.natAbs < 2 ^ 64)
    (nonneg : (Number.int 0).le t.averageImports = true) :
    ∃ c, checkStructure d t = .ok c ∧ c.nodes = .int nodes ∧ c.edges = .int edges ∧
      c.finding.map (·.rule) =
        if nodes = 0 then some .emptyGraph
        else if edges = 0 then some .noEdges
        else if c.average.any fun a => t.averageImports.lt (.float a) then some .importDensity
        else none := by
  unfold checkStructure
  simp only [Json.field, hsummary, hnodes, hedges, bind, Except.bind, pure, Except.pure,
    same_int_zero_iff, decide_eq_true_eq]
  by_cases hn : nodes = 0
  · simp [hn]
  by_cases he : edges = 0
  · simp [hn, he]
  obtain ⟨x, hx, hfinite⟩ := divide_spec he hn hlt
  simp only [hn, he, if_false, hx]
  cases hdense : t.averageImports.lt (.float (Binary.roundPlaces 2 x)) with
  | false => exact ⟨_, rfl, rfl, rfl, by simp [hdense]⟩
  | true =>
    obtain ⟨text, htext⟩ := exists_thresholdText nonneg (hfinite 2) hdense
    simp only [if_true, htext]
    exact ⟨_, rfl, rfl, rfl, by simp [hdense]⟩

/-! ## Age and type files -/

/-- A report that is too old, or whose time cannot be read, is a finding of one rule. -/
theorem checkAge_spec {d : Document} {t : Thresholds} {now : Moment} (h : WellShaped d)
    (hnow : now.OnCalendar) (nonneg : (Number.int 0).le t.staleHours = true) :
    ∃ age f, checkAge d t now = .ok (age, f) ∧ ∀ x ∈ f, x.rule = .stale := by
  unfold checkAge member
  cases htime : d.lookup "timestamp" with
  | none => exact ⟨none, none, rfl, by simp⟩
  | some v =>
    obtain ⟨text, rfl⟩ := h.timestamp v htime
    simp only [Option.getD_some, Json.toText, bind, Except.bind, pure, Except.pure]
    split
    · exact ⟨none, none, rfl, by simp⟩
    cases hmade : Moment.ofText? text with
    | none => exact ⟨none, _, rfl, by simp⟩
    | some made =>
      have hfinite := Moment.isFinite_hoursSince hnow (Moment.onCalendar_of_ofText? hmade)
      cases hstale : t.staleHours.lt (.float (now.hoursSince made)) with
      | false =>
        simp only [hstale, Bool.false_eq_true, if_false]
        exact ⟨_, none, rfl, by simp⟩
      | true =>
        obtain ⟨threshold, hthreshold⟩ := exists_thresholdText nonneg hfinite hstale
        simp only [hstale, if_true, hthreshold]
        exact ⟨_, _, rfl, by simp⟩

/-- Type files without exports are a finding of one rule. -/
theorem checkTypeFiles_spec {d : Document} (h : WellShaped d) :
    ∃ n f, checkTypeFiles d = .ok (n, f) ∧ ∀ x ∈ f, x.rule = .emptyTypeFiles := by
  unfold checkTypeFiles
  rw [run_of_list (h.lists "typeNodes" (by simp))]
  simp only [bind, Except.bind, pure, Except.pure]
  split
  · exact ⟨_, none, rfl, by simp⟩
  · exact ⟨_, _, rfl, by simp⟩

/-! ## All rules -/

/-- The gate fails exactly on a critical finding. -/
theorem exitCode_eq_one_iff {r : Result} :
    r.exitCode = 1 ↔ ∃ f ∈ r.findings, f.severity = .critical := by
  have hverdict : r.verdict = .failed ↔ r.criticals ≠ [] := by
    unfold Result.verdict
    split
    · simpa
    · split <;> simp_all
  simp only [Result.exitCode, ite_eq_left_iff, hverdict]
  simp [Result.criticals]

theorem exists_mem_filterMap_id {fs : List (Option Finding)} {p : Finding → Prop} :
    (∃ x ∈ fs.filterMap id, p x) ↔ ∃ f ∈ fs, ∃ x ∈ f, p x := by
  simp only [List.mem_filterMap, id_eq, Option.mem_def]
  exact ⟨fun ⟨x, ⟨f, hf, hx⟩, hp⟩ => ⟨f, hf, x, hx, hp⟩,
    fun ⟨f, hf, x, hx, hp⟩ => ⟨x, ⟨f, hf, hx⟩, hp⟩⟩

theorem exists_critical_iff {f : Option Finding} :
    (∃ x ∈ f, x.severity = .critical) ↔ ∃ r ∈ f.map (·.rule), r.severity = .critical := by
  cases f <;> simp [Finding.severity]

/-- What the gate says of a well-shaped document: it measures what was counted, and it fails exactly
on a graph without nodes, on one without edges, and on more cycles than tolerated. -/
theorem evaluate_spec {d s : Document} {t : Thresholds} {now : Moment}
    {cycles unused nodes edges : Int} (h : WellShaped d)
    (hcycles : count d "cycles" "cyclesCount" = .ok cycles)
    (hunused : count d "unusedExports" "unusedExportsCount" = .ok unused)
    (shortCycles : Json.numberWritable (.int cycles) = true)
    (shortUnused : Json.numberWritable (.int unused) = true)
    (hsummary : d.lookup "summary" = some (.obj s))
    (hnodes : s.lookup "totalNodes" = some (.int nodes))
    (hedges : s.lookup "totalEdges" = some (.int edges)) (hlt : edges.natAbs < 2 ^ 64)
    (hnow : now.OnCalendar) (ht : t.NonNegative) :
    ∃ r, evaluate d t now = .ok r ∧ r.metrics.cycles = cycles ∧ r.metrics.unusedExports = unused ∧
      r.metrics.nodes = .int nodes ∧ r.metrics.edges = .int edges ∧
      (r.exitCode = 1 ↔ nodes = 0 ∨ edges = 0 ∨ t.cycles.lt (.int cycles) = true) := by
  obtain ⟨⟨n₁, f₁⟩, hf₁⟩ : ∃ r, checkCycles d t = .ok r :=
    (exists_checkCount_iff (exists_cycleTexts h)).2
      ⟨cycles, hcycles, shown_of_nonneg shortCycles ht.cycles⟩
  obtain ⟨⟨n₂, f₂⟩, hf₂⟩ : ∃ r, checkUnused d t = .ok r :=
    (exists_checkCount_iff (exists_unusedTexts h)).2
      ⟨unused, hunused, shown_of_nonneg shortUnused ht.unused⟩
  obtain ⟨hn₁, hrule₁⟩ := checkCount_eq_ok hf₁
  obtain ⟨hn₂, hrule₂⟩ := checkCount_eq_ok hf₂
  cases hn₁.symm.trans hcycles
  cases hn₂.symm.trans hunused
  obtain ⟨c, hc, hcnodes, hcedges, hrule₃⟩ := checkStructure_spec t hsummary hnodes hedges hlt
    ht.averageImports
  obtain ⟨age, f₄, hf₄, hrule₄⟩ := checkAge_spec h hnow ht.staleHours
  obtain ⟨files, f₅, hf₅, hrule₅⟩ := checkTypeFiles_spec h
  unfold evaluate
  simp only [hf₁, hf₂, hc, hf₄, hf₅, bind, Except.bind, pure, Except.pure]
  refine ⟨_, rfl, rfl, rfl, hcnodes, hcedges, ?_⟩
  -- Only the cycles and the structure of the graph can be critical.
  have hcritical₁ : (∃ x ∈ f₁, x.severity = .critical) ↔
      t.cycles.lt (.int cycles) = true := by
    rw [← Number.le_eq_false_iff (Number.exact_int_ne_nan cycles)
      (Number.exact_ne_nan_of_le ht.cycles), exists_critical_iff, hrule₁]
    split <;> simp_all [Rule.severity]
  have hcritical₂ : ¬ ∃ x ∈ f₂, x.severity = .critical := by
    rw [exists_critical_iff, hrule₂]
    split <;> simp [Rule.severity]
  have hcritical₃ : (∃ x ∈ c.finding, x.severity = .critical) ↔ nodes = 0 ∨ edges = 0 := by
    rw [exists_critical_iff, hrule₃]
    split_ifs <;> simp_all [Rule.severity]
  have hcritical₄ : ¬ ∃ x ∈ f₄, x.severity = .critical := by
    rintro ⟨x, hx, hsev⟩
    simp [Finding.severity, hrule₄ x hx, Rule.severity] at hsev
  have hcritical₅ : ¬ ∃ x ∈ f₅, x.severity = .critical := by
    rintro ⟨x, hx, hsev⟩
    simp [Finding.severity, hrule₅ x hx, Rule.severity] at hsev
  rw [exitCode_eq_one_iff, exists_mem_filterMap_id]
  simp only [List.mem_cons, exists_eq_or_imp, List.not_mem_nil, or_false, exists_eq_left,
    hcritical₁, hcritical₂, hcritical₃, hcritical₄, hcritical₅, false_or]
  tauto

end ImportAtlas.Gate
