import ImportAtlas.Proofs.Except
import ImportAtlas.Proofs.Gate.Faults
import ImportAtlas.Proofs.Json.Access

/-!
# The findings are the broken rules

`Breaks` says of each rule when a document breaks it, without regard to the other rules. The gate
lists the rules that are broken, each once and in a fixed order, and only three of them can make it
fail.
-/

namespace ImportAtlas

namespace Gate

/-- The rules in the order in which their findings stand. -/
def Rule.inOrder : List Rule :=
  [.cycles, .unusedExports, .emptyGraph, .noEdges, .importDensity, .stale, .emptyTypeFiles]

/-- When a document breaks a rule. -/
def Breaks (d : Document) (t : Thresholds) (now : Moment) : Rule → Prop
  | .cycles => ∃ n, Counted d "cycles" "cyclesCount" n ∧ t.cycles.lt (.int n) = true
  | .unusedExports =>
    ∃ n, Counted d "unusedExports" "unusedExportsCount" n ∧ t.unused.lt (.int n) = true
  | .emptyGraph => ∃ edges, Sizes d 0 edges
  | .noEdges => ∃ nodes, Sizes d nodes 0 ∧ nodes ≠ 0
  | .importDensity =>
    ∃ nodes edges average, Sizes d nodes edges ∧ nodes ≠ 0 ∧ edges ≠ 0 ∧
      divide (.int edges) (.int nodes) = .ok average ∧
      t.averageImports.lt (.float (Binary.roundPlaces 2 average)) = true
  | .stale =>
    ∃ text, d.lookup "timestamp" = some (.str text) ∧ text ≠ "" ∧
      (Moment.ofText? text = none ∨
        ∃ made, Moment.ofText? text = some made ∧
          t.staleHours.lt (.float (now.hoursSince made)) = true)
  | .emptyTypeFiles =>
    ∃ file, .obj file ∈ items (d.lookup "typeNodes") ∧ (member file "exports").counts = false

variable {d : Document} {t : Thresholds} {now : Moment}

/-! ## Counts -/

/-- A count exceeds a limit that is a number if it is not at most the limit. -/
theorem exists_counted_lt_iff {listKey summaryKey : String} {n : Int} {limit : Number}
    (hcount : count d listKey summaryKey = .ok n) (hlimit : limit.exact ≠ .nan) :
    (∃ m, Counted d listKey summaryKey m ∧ limit.lt (.int m) = true) ↔
      (Number.int n).le limit = false := by
  rw [Number.le_eq_false_iff (Number.exact_int_ne_nan n) hlimit]
  simp only [← count_eq_ok_iff, hcount, Except.ok.injEq, exists_eq_left']

/-! ## One rule after another -/

section Rules

open Classical

theorem rules_checkCycles (now : Moment) {n : Int} {f : Option Finding}
    (ht : t.cycles.exact ≠ .nan) (hr : checkCycles d t = .ok (n, f)) :
    f.toList.map (·.rule) = [Rule.cycles].filter (Breaks d t now ·) := by
  obtain ⟨hcount, hrule⟩ := checkCount_eq_ok hr
  rw [← Option.toList_map, hrule]
  have hbreaks : Breaks d t now .cycles ↔ _ := exists_counted_lt_iff hcount ht
  cases hle : (Number.int n).le t.cycles <;> simp [hbreaks, hle]

theorem rules_checkUnused (now : Moment) {n : Int} {f : Option Finding}
    (ht : t.unused.exact ≠ .nan) (hr : checkUnused d t = .ok (n, f)) :
    f.toList.map (·.rule) = [Rule.unusedExports].filter (Breaks d t now ·) := by
  obtain ⟨hcount, hrule⟩ := checkCount_eq_ok hr
  rw [← Option.toList_map, hrule]
  have hbreaks : Breaks d t now .unusedExports ↔ _ := exists_counted_lt_iff hcount ht
  cases hle : (Number.int n).le t.unused <;> simp [hbreaks, hle]

/-- The three rules about the structure exclude each other. -/
theorem rules_checkStructure (now : Moment) {c : GraphCheck} {nodes edges : Int} (h : Sizes d nodes edges)
    (hr : checkStructure d t = .ok c) :
    c.finding.toList.map (·.rule) =
      [Rule.emptyGraph, .noEdges, .importDensity].filter (Breaks d t now ·) := by
  have hempty : Breaks d t now .emptyGraph ↔ nodes = 0 := by
    constructor
    · rintro ⟨edges', h'⟩
      exact (h.unique h').1
    · rintro rfl
      exact ⟨edges, h⟩
  have hedgeless : Breaks d t now .noEdges ↔ nodes ≠ 0 ∧ edges = 0 := by
    constructor
    · rintro ⟨nodes', h', hn⟩
      obtain ⟨rfl, rfl⟩ := h.unique h'
      exact ⟨hn, rfl⟩
    · rintro ⟨hn, rfl⟩
      exact ⟨nodes, h, hn⟩
  have hdense : Breaks d t now .importDensity ↔ nodes ≠ 0 ∧ edges ≠ 0 ∧ ∃ x,
      divide (.int edges) (.int nodes) = .ok x ∧
        t.averageImports.lt (.float (Binary.roundPlaces 2 x)) = true := by
    constructor
    · rintro ⟨nodes', edges', x, h', hn, he, hx⟩
      obtain ⟨rfl, rfl⟩ := h.unique h'
      exact ⟨hn, he, x, hx⟩
    · rintro ⟨hn, he, x, hx⟩
      exact ⟨nodes, edges, x, h, hn, he, hx⟩
  obtain ⟨s, hsummary, hnodes, hedges⟩ := h
  simp only [checkStructure, Json.field, hsummary, hnodes, hedges, bind, Except.bind, pure,
    Except.pure, same_int_zero_iff, decide_eq_true_eq] at hr
  by_cases hn : nodes = 0
  · rw [if_pos hn] at hr
    cases hr
    simp [hempty, hedgeless, hdense, hn]
  by_cases he : edges = 0
  · rw [if_neg hn, if_pos he] at hr
    cases hr
    simp [hempty, hedgeless, hdense, hn, he]
  rw [if_neg hn, if_neg he] at hr
  cases hdivide : divide (.int edges) (.int nodes) with
  | error f => simp [hdivide] at hr
  | ok x =>
    simp only [hdivide] at hr
    split at hr
    · next hlt =>
      cases htext : thresholdText t.averageImports with
      | error f => simp [htext] at hr
      | ok text =>
        simp only [htext] at hr
        cases hr
        simp [hempty, hedgeless, hdense, hn, he, hdivide, hlt]
    · next hlt =>
      cases hr
      simp [hempty, hedgeless, hdense, hn, he, hdivide, hlt]

theorem rules_checkAge {age : Option Float} {f : Option Finding} (h : WellShaped d)
    (hr : checkAge d t now = .ok (age, f)) :
    f.toList.map (·.rule) = [Rule.stale].filter (Breaks d t now ·) := by
  unfold checkAge member at hr
  cases htime : d.lookup "timestamp" with
  | none =>
    rw [htime] at hr
    cases hr
    simp [Breaks, htime]
  | some v =>
    obtain ⟨text, rfl⟩ := h.timestamp v htime
    have hbreaks : Breaks d t now .stale ↔ text ≠ "" ∧ (Moment.ofText? text = none ∨
        ∃ made, Moment.ofText? text = some made ∧
          t.staleHours.lt (.float (now.hoursSince made)) = true) := by
      simp [Breaks, htime]
    simp only [htime, Option.getD_some, Json.counts, Json.toText, bind, Except.bind, pure,
      Except.pure, Bool.not_not, String.isEmpty_iff] at hr
    by_cases hempty : text = ""
    · rw [if_pos hempty] at hr
      cases hr
      simp [hbreaks, hempty]
    rw [if_neg hempty] at hr
    cases hmade : Moment.ofText? text with
    | none =>
      simp only [hmade] at hr
      cases hr
      simp [hbreaks, hempty, hmade]
    | some made =>
      simp only [hmade] at hr
      split at hr
      · next hlt =>
        cases htext : thresholdText t.staleHours with
        | error f => simp [htext] at hr
        | ok shown =>
          simp only [htext] at hr
          cases hr
          simp [hbreaks, hempty, hmade, hlt]
      · next hlt =>
        cases hr
        simp [hbreaks, hempty, hmade, hlt]

theorem rules_checkTypeFiles (t : Thresholds) (now : Moment) {n : Nat} {f : Option Finding} (h : WellShaped d)
    (hr : checkTypeFiles d = .ok (n, f)) :
    f.toList.map (·.rule) = [Rule.emptyTypeFiles].filter (Breaks d t now ·) := by
  simp only [checkTypeFiles, run_of_list (h.lists "typeNodes" (by simp)), bind, Except.bind, pure,
    Except.pure] at hr
  generalize hfiles : List.filterMap _ (items (d.lookup "typeNodes")) = files at hr
  have hmem (file : Document) : file ∈ files ↔ .obj file ∈ items (d.lookup "typeNodes") := by
    rw [← hfiles, List.mem_filterMap]
    constructor
    · rintro ⟨v, hv, heq⟩
      split at heq
      · cases heq
        exact hv
      · cases heq
    · intro hv
      exact ⟨_, hv, rfl⟩
  have hbreaks : Breaks d t now .emptyTypeFiles ↔
      files.filter (fun t => !(member t "exports").counts) ≠ [] := by
    simp [Breaks, hmem]
  split at hr
  · next hempty =>
    cases hr
    rw [List.isEmpty_iff] at hempty
    simp [hbreaks, hempty]
  · next hempty =>
    cases hr
    rw [List.isEmpty_iff] at hempty
    simp only [Option.toList_some, List.map_cons, List.map_nil, List.filter_cons, List.filter_nil,
      decide_eq_true (hbreaks.2 hempty), if_true]

/-! ## All rules -/

/-- A result lists what each rule found. -/
theorem findings_evaluate {r : Result} (hr : evaluate d t now = .ok r) :
    ∃ n₁ f₁ n₂ f₂ c age f₄ n₅ f₅, checkCycles d t = .ok (n₁, f₁) ∧
      checkUnused d t = .ok (n₂, f₂) ∧ checkStructure d t = .ok c ∧
      checkAge d t now = .ok (age, f₄) ∧ checkTypeFiles d = .ok (n₅, f₅) ∧
      r.findings = f₁.toList ++ f₂.toList ++ c.finding.toList ++ f₄.toList ++ f₅.toList := by
  obtain ⟨⟨n₁, f₁⟩, h₁, hr⟩ := bind_eq_ok_iff.1 hr
  obtain ⟨⟨n₂, f₂⟩, h₂, hr⟩ := bind_eq_ok_iff.1 hr
  obtain ⟨c, h₃, hr⟩ := bind_eq_ok_iff.1 hr
  obtain ⟨⟨age, f₄⟩, h₄, hr⟩ := bind_eq_ok_iff.1 hr
  obtain ⟨⟨n₅, f₅⟩, h₅, hr⟩ := bind_eq_ok_iff.1 hr
  cases hr
  refine ⟨n₁, f₁, n₂, f₂, c, age, f₄, n₅, f₅, h₁, h₂, h₃, h₄, h₅, ?_⟩
  simp [List.filterMap_eq_flatMap_toList]

/-- The rules of the findings are the broken rules, in order. -/
theorem rules_evaluate {r : Result} (h : WellShaped d) (hcycles : t.cycles.exact ≠ .nan)
    (hunused : t.unused.exact ≠ .nan) (hr : evaluate d t now = .ok r) :
    r.findings.map (·.rule) = Rule.inOrder.filter (Breaks d t now ·) := by
  obtain ⟨s, nodes, edges, hsizes⟩ := h.summary
  obtain ⟨n₁, f₁, n₂, f₂, c, age, f₄, n₅, f₅, h₁, h₂, h₃, h₄, h₅, hfindings⟩ :=
    findings_evaluate hr
  have horder : Rule.inOrder = [Rule.cycles] ++ [Rule.unusedExports] ++
      [Rule.emptyGraph, Rule.noEdges, Rule.importDensity] ++ [Rule.stale] ++
      [Rule.emptyTypeFiles] := rfl
  rw [hfindings, horder]
  simp only [List.map_append, List.filter_append, rules_checkCycles now hcycles h₁,
    rules_checkUnused now hunused h₂, rules_checkStructure now ⟨s, hsizes⟩ h₃,
    rules_checkAge h h₄, rules_checkTypeFiles t now h h₅]

end Rules

theorem Rule.mem_inOrder (rule : Rule) : rule ∈ inOrder := by
  cases rule <;> decide

/-- The codes of the critical rules. -/
theorem Rule.critical_iff (rule : Rule) :
    rule.severity = .critical ↔
      rule.code = "cycles" ∨ rule.code = "empty_graph" ∨ rule.code = "no_edges" := by
  cases rule <;> decide

theorem exitCode_eq_one_iff_codes {r : Result} :
    r.exitCode = 1 ↔ "cycles" ∈ r.codes ∨ "empty_graph" ∈ r.codes ∨ "no_edges" ∈ r.codes := by
  simp only [exitCode_eq_one_iff, Finding.severity, Rule.critical_iff, Result.codes, List.mem_map,
    and_or_left, exists_or]

open Classical in
theorem exitCode_evaluate {r : Result} (h : WellShaped d) (hcycles : t.cycles.exact ≠ .nan)
    (hunused : t.unused.exact ≠ .nan) (hr : evaluate d t now = .ok r) :
    r.exitCode = 1 ↔ ∃ rule, rule.severity = .critical ∧ Breaks d t now rule := by
  have hmem (rule : Rule) : (∃ f ∈ r.findings, f.rule = rule) ↔ Breaks d t now rule := by
    rw [← List.mem_map, rules_evaluate h hcycles hunused hr, List.mem_filter, decide_eq_true_iff]
    exact and_iff_right rule.mem_inOrder
  rw [exitCode_eq_one_iff]
  constructor
  · rintro ⟨f, hf, hcritical⟩
    exact ⟨f.rule, hcritical, (hmem f.rule).1 ⟨f, hf, rfl⟩⟩
  · rintro ⟨rule, hcritical, hbreaks⟩
    obtain ⟨f, hf, rfl⟩ := (hmem rule).2 hbreaks
    exact ⟨f, hf, hcritical⟩

/-! ## What the exit code depends on -/

/-- Two documents that say the same of the cycles and of the size of the graph. -/
structure SameGraph (d d' : Document) : Prop where
  cycles : d'.lookup "cycles" = d.lookup "cycles"
  summary : ∀ s s', d.lookup "summary" = some (.obj s) → d'.lookup "summary" = some (.obj s') →
    ∀ key ∈ ["totalNodes", "totalEdges", "cyclesCount"], s'.lookup key = s.lookup key

variable {d' : Document}

theorem SameGraph.symm (h : SameGraph d d') : SameGraph d' d :=
  ⟨h.cycles.symm, fun s s' hs hs' key hkey => (h.summary s' s hs' hs key hkey).symm⟩

theorem SameGraph.sizes (same : SameGraph d d') (h' : WellShaped d') {nodes edges : Int}
    (h : Sizes d nodes edges) : Sizes d' nodes edges := by
  obtain ⟨s, hs, hnodes, hedges⟩ := h
  obtain ⟨s', -, -, hs', -⟩ := h'.summary
  have hsame := same.summary s s' hs hs'
  refine ⟨s', hs', ?_, ?_⟩
  · rw [hsame _ (by simp), hnodes]
  · rw [hsame _ (by simp), hedges]

theorem SameGraph.counted (same : SameGraph d d') (h' : WellShaped d') {n : Int}
    (h : Counted d "cycles" "cyclesCount" n) : Counted d' "cycles" "cyclesCount" n := by
  obtain ⟨s', -, -, hs', -⟩ := h'.summary
  cases h with
  | listed list => exact .listed (same.cycles.trans list)
  | stated missing summary number =>
    refine .stated (fun vs hvs => missing vs (same.cycles.symm.trans hvs)) hs' ?_
    rwa [same.summary _ s' summary hs' _ (by simp)]

theorem SameGraph.breaks (same : SameGraph d d') (h' : WellShaped d') {t' : Thresholds}
    (ht : t'.cycles = t.cycles) (now' : Moment) {rule : Rule} (critical : rule.severity = .critical)
    (h : Breaks d t now rule) : Breaks d' t' now' rule := by
  cases rule with
  | cycles =>
    obtain ⟨n, hn, hlt⟩ := h
    exact ⟨n, same.counted h' hn, ht ▸ hlt⟩
  | emptyGraph =>
    obtain ⟨edges, hsizes⟩ := h
    exact ⟨edges, same.sizes h' hsizes⟩
  | noEdges =>
    obtain ⟨nodes, hsizes, hn⟩ := h
    exact ⟨nodes, same.sizes h' hsizes, hn⟩
  | unusedExports | importDensity | stale | emptyTypeFiles => cases critical

open Classical in
/-- The codes of a result are those of the broken rules, each judged on its own, in a fixed order.
The gate fails exactly if one of the critical three is among them, so of two documents that say the
same of the cycles and of the size of the graph both pass or both fail, whatever else they hold. -/
theorem codes_eq_broken_rules (d : Document) (t : Thresholds) (now : Moment) (r : Result)
    (hshape : shapeError? d = none) (hcycles : t.cycles.exact ≠ .nan)
    (hunused : t.unused.exact ≠ .nan) (hr : evaluate d t now = .ok r) :
    r.codes = (Rule.inOrder.filter (Breaks d t now ·)).map Rule.code ∧
    (r.exitCode = 1 ↔ "cycles" ∈ r.codes ∨ "empty_graph" ∈ r.codes ∨ "no_edges" ∈ r.codes) ∧
    ∀ d' t' now' r', shapeError? d' = none → t'.unused.exact ≠ .nan →
      evaluate d' t' now' = .ok r' → SameGraph d d' → t'.cycles = t.cycles →
      r'.exitCode = r.exitCode := by
  have hwell := shapeError?_eq_none_iff.1 hshape
  refine ⟨?_, exitCode_eq_one_iff_codes, ?_⟩
  · rw [← rules_evaluate hwell hcycles hunused hr, List.map_map]
    rfl
  · intro d' t' now' r' hshape' hunused' hr' same ht
    have hwell' := shapeError?_eq_none_iff.1 hshape'
    have hexit : r'.exitCode = 1 ↔ r.exitCode = 1 := by
      rw [exitCode_evaluate hwell' (ht ▸ hcycles) hunused' hr',
        exitCode_evaluate hwell hcycles hunused hr]
      constructor
      · rintro ⟨rule, critical, hbreaks⟩
        exact ⟨rule, critical, same.symm.breaks hwell ht.symm now critical hbreaks⟩
      · rintro ⟨rule, critical, hbreaks⟩
        exact ⟨rule, critical, same.breaks hwell' ht now' critical hbreaks⟩
    unfold Result.exitCode at hexit ⊢
    split_ifs at hexit ⊢ <;> simp_all

/-- A report of a graph with 20.0075 imports a file, a listed cycle, a stated number of unused
exports and a type file that exports nothing. -/
def troubledReport : Document :=
  [("timestamp", .str "2024-05-01T10:00:00Z"),
   ("summary", .obj [("totalNodes", .int 400), ("totalEdges", .int 8003),
     ("unusedExportsCount", .str " 1_1 ")]),
   ("cycles", .arr [.arr [.int 0, .int 1, .int 0]]),
   ("typeNodes", .arr [.obj [("exports", .texts ["T"])], .null, .obj [("fileName", .str "t.ts")]])]

/-- A report that says the same of the graph and is fine otherwise. -/
def calmReport : Document :=
  [("timestamp", .str "2024-05-01T12:00:00+02:00"),
   ("summary", .obj [("totalNodes", .int 400), ("totalEdges", .int 8003)]),
   ("cycles", .arr [.arr [.int 0, .int 1, .int 0]])]

theorem calmReport_sameGraph : SameGraph troubledReport calmReport := by
  refine ⟨rfl, ?_⟩
  rintro s s' ⟨⟩ ⟨⟩
  simp [List.lookup_cons]

/-- A microsecond more than a day after the reports were made. -/
def nextDay : Moment := ⟨1714644000000001, 0⟩

open Classical in
/-- The average exceeds 20.008 only because it is rounded, and the report is too old by a
microsecond. A threshold of 20.01 is not exceeded, and a microsecond earlier the report is not too
old. -/
theorem troubledReport_codes :
    ∃ r, evaluate troubledReport ⟨.int 0, .int 10, .float 20.008, .int 24⟩ nextDay = .ok r ∧
      r.codes = ["cycles", "unused_exports", "import_density", "stale", "empty_type_files"] ∧
      r.codes = (Rule.inOrder.filter
        (Breaks troubledReport ⟨.int 0, .int 10, .float 20.008, .int 24⟩ nextDay ·)).map Rule.code ∧
      r.exitCode = 1 ∧
      ∃ r', evaluate calmReport ⟨.int 0, .int 10, .float 20.01, .int 24⟩
          { nextDay with instant := nextDay.instant - 1 } = .ok r' ∧
        r'.codes = ["cycles"] ∧ r'.exitCode = r.exitCode := by
  obtain ⟨r, hr, hcodes⟩ := toOption_map_eq_some_iff.1 (by decide +kernel :
    (evaluate troubledReport ⟨.int 0, .int 10, .float 20.008, .int 24⟩ nextDay).toOption.map
      Result.codes =
        some ["cycles", "unused_exports", "import_density", "stale", "empty_type_files"])
  obtain ⟨r', hr', hcodes'⟩ := toOption_map_eq_some_iff.1 (by decide +kernel :
    (evaluate calmReport ⟨.int 0, .int 10, .float 20.01, .int 24⟩
      { nextDay with instant := nextDay.instant - 1 }).toOption.map Result.codes = some ["cycles"])
  obtain ⟨hbroken, hexit, hsame⟩ := codes_eq_broken_rules troubledReport
    ⟨.int 0, .int 10, .float 20.008, .int 24⟩ nextDay r (by decide +kernel) (by decide +kernel)
    (by decide +kernel) hr
  refine ⟨r, hr, hcodes, hbroken, hexit.2 (by simp [hcodes]), r', hr', hcodes', ?_⟩
  exact hsame _ _ _ r' (by decide +kernel) (by decide +kernel) hr' calmReport_sameGraph rfl

end Gate

end ImportAtlas
