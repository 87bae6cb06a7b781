import ImportAtlas.Proofs.Analysis.Run
import ImportAtlas.Proofs.Gate.Rules
import ImportAtlas.Proofs.Graph.Built
import ImportAtlas.Proofs.Report.Stored

/-!
# The gate on the report of an analysis

The document of every report is well-shaped, and the gate counts in it what the report lists. An
analysis that saves its report leaves that document in the world, so the gate gives a result on it,
and whether the gate fails is said by what the analysis found.
-/

namespace ImportAtlas

open Gate (Document)

/-! ## Documents of reports -/

namespace Report

variable {r : Report String} {d : Document}

theorem wellShaped_of_toJson (h : (ofTexts r).toJson = .obj d) : Gate.WellShaped d := by
  cases h
  refine ⟨⟨_, r.summary.totalNodes, r.summary.totalEdges, rfl, rfl, rfl⟩, ?_, ?_, ?_, ?_, ?_⟩
  · intro key hkey v hv
    simp only [List.mem_cons, List.not_mem_nil, or_false] at hkey
    rcases hkey with rfl | rfl | rfl <;> cases hv <;> exact ⟨_, rfl⟩
  · rintro v ⟨⟩
    exact .inr ⟨_, rfl, by rintro nodes ⟨⟩; exact ⟨_, rfl⟩⟩
  · intro c hc
    obtain ⟨ids, -, rfl⟩ := List.mem_map.1 hc
    exact ⟨_, rfl, by simp [Json.int]⟩
  · intro v hv n id hobj hid
    obtain ⟨node, -, rfl⟩ := List.mem_map.1 hv
    cases hobj
    cases hid
    exact ⟨_, rfl⟩
  · rintro v ⟨⟩
    exact ⟨_, rfl⟩

/-- The counts in the summary of a document that can be written can be written. -/
theorem writable_counts (h : (ofTexts r).toJson.isWritable = true) :
    Json.numberWritable (.int r.summary.cyclesCount) = true ∧
      Json.numberWritable (.int r.summary.unusedExportsCount) = true := by
  have hstorable : Json.Storable (ofTexts r).toJson := ⟨r.plain_toJson, h⟩
  have hsummary : Json.Storable r.summary.toJson :=
    (Json.storable_obj_iff.1 hstorable).2 ("summary", r.summary.toJson) (by simp [ofTexts, map])
  have hcounts := (Json.storable_obj_iff.1 hsummary).2
  exact ⟨(hcounts ("cyclesCount", .int r.summary.cyclesCount) (by simp)).2,
    (hcounts ("unusedExportsCount", .int r.summary.unusedExportsCount) (by simp)).2⟩

end Report

/-- The gate on a report that was saved, at any later time. -/
theorem ReportStore.validate_save {s : ReportStore} {r : Report String} {w w' : World}
    {t : Gate.Thresholds} {now : Moment} (saved : s.save (Report.ofTexts r).toJson w = .ok w')
    (hc : r.summary.cyclesCount = r.cycles.length)
    (hu : r.summary.unusedExportsCount = r.unusedExports.length)
    (ht : t.NonNegative) (hnow : now.OnCalendar) (hlt : r.summary.totalEdges.natAbs < 2 ^ 64) :
    ∃ res, s.validate t { w' with now := now } = .ok res ∧
      res.metrics.cycles = r.cycles.length ∧ res.metrics.unusedExports = r.unusedExports.length ∧
      res.metrics.nodes = .int r.summary.totalNodes ∧
      res.metrics.edges = .int r.summary.totalEdges ∧
      (res.exitCode = 1 ↔ r.summary.totalNodes = 0 ∨ r.summary.totalEdges = 0 ∨
        t.cycles.lt (.int r.cycles.length) = true) := by
  obtain ⟨d, hd⟩ : ∃ d, (Report.ofTexts r).toJson = .obj d := ⟨_, rfl⟩
  have hshape : Gate.WellShaped d := Report.wellShaped_of_toJson hd
  have hload : s.loadRaw { w' with now := now } = .ok d := by
    have hplain := r.plain_toJson
    rw [hd] at hplain saved
    exact loadRaw_save hplain saved now
  have hcycles : Gate.count d "cycles" "cyclesCount" = .ok r.cycles.length := by
    cases hd
    exact (Gate.count_of_list rfl).trans (by simp [Report.ofTexts, Report.map])
  have hunused : Gate.count d "unusedExports" "unusedExportsCount" =
      .ok r.unusedExports.length := by
    cases hd
    exact (Gate.count_of_list rfl).trans (by simp [Report.ofTexts, Report.map])
  have hsummary : ∃ s, d.lookup "summary" = some (.obj s) ∧
      s.lookup "totalNodes" = some (.int r.summary.totalNodes) ∧
      s.lookup "totalEdges" = some (.int r.summary.totalEdges) := by
    cases hd
    exact ⟨_, rfl, rfl, rfl⟩
  obtain ⟨summary, hs, hnodes, hedges⟩ := hsummary
  obtain ⟨shortCycles, shortUnused⟩ := Report.writable_counts (save_eq_ok_iff.1 saved).1
  rw [hc] at shortCycles
  rw [hu] at shortUnused
  obtain ⟨res, hres, hc, hu, hn, he, hexit⟩ := Gate.evaluate_spec hshape hcycles hunused
    shortCycles shortUnused hs hnodes hedges hlt hnow ht
  refine ⟨res, ?_, hc, hu, hn, he, hexit⟩
  simp only [validate, hload, Gate.shapeError?_eq_none_iff.2 hshape, bind, Except.bind]
  rw [hres]
  rfl

/-! ## Analyses that save their report -/

namespace Analysis

variable {w w' : World} {root : Location} {settings : AnalysisSettings} {found : AnalysisRun}

/-- What an analysis that saves its report leaves behind. -/
theorem run_eq_ok (h : run w root settings none true = .ok (found, w')) :
    ∃ timestamp, found.report =
        reportOn root settings timestamp found.discovery.files.length found.analyses ∧
      found.reportPath = some (reportLocation root settings) ∧
      ReportStore.save ⟨reportLocation root settings⟩ (Report.ofTexts found.report).toJson w =
        .ok w' := by
  obtain ⟨found₀, w₁, hexamine, hsave, rfl, rfl⟩ := run_eq_ok_iff.1 h
  obtain ⟨timestamp, hreport⟩ := report_of_examine hexamine
  exact ⟨timestamp, hreport, rfl, hsave⟩

/-- The gate gives a result on every report that an analysis has saved. It measures the lists of
the report, and it fails exactly if no file was analysed, no import became an edge, or there are
more cycles than tolerated; with no cycle tolerated and some edge, exactly if the edges lead some
file back to itself. -/
theorem gate_on_saved_report (w w' : World) (root : Location) (settings : AnalysisSettings)
    (found : AnalysisRun) (t : Gate.Thresholds) (now : Moment)
    (h : run w root settings none true = .ok (found, w')) (ht : t.NonNegative)
    (hnow : now.OnCalendar) (hlt : found.report.edges.length < 2 ^ 53) :
    found.reportPath = some (reportLocation root settings) ∧
    ∃ res, ReportStore.validate ⟨reportLocation root settings⟩ t { w' with now := now } = .ok res ∧
      res.metrics.cycles = found.report.cycles.length ∧
      res.metrics.nodes = .int found.report.nodes.length ∧
      res.metrics.edges = .int found.report.edges.length ∧
      res.metrics.unusedExports = found.report.unusedExports.length ∧
      (res.exitCode = 1 ↔ found.analyses = [] ∨ found.report.edges = [] ∨
        t.cycles.lt (.int found.report.cycles.length) = true) ∧
      (t.cycles.same (.int 0) = true → found.report.edges ≠ [] →
        (res.exitCode = 1 ↔ ∃ v, Relation.TransGen
          (Graph.mk found.report.nodes found.report.edges).Adjacent v v)) := by
  obtain ⟨timestamp, hreport, hpath, hsave⟩ := run_eq_ok h
  have hnodes : found.report.summary.totalNodes = found.report.nodes.length := by rw [hreport]; rfl
  have hedges : found.report.summary.totalEdges = found.report.edges.length := by rw [hreport]; rfl
  have hanalyses : found.report.nodes.length = found.analyses.length := by
    rw [hreport]
    exact List.length_mapIdx
  obtain ⟨res, hres, hc, hu, hn, he, hexit⟩ :=
    ReportStore.validate_save hsave (by rw [hreport]; rfl) (by rw [hreport]; rfl) ht hnow (by omega)
  have hfails : res.exitCode = 1 ↔ found.analyses = [] ∨ found.report.edges = [] ∨
      t.cycles.lt (.int found.report.cycles.length) = true := by
    rw [hexit, hnodes, hedges, hanalyses]
    simp
  refine ⟨hpath, res, hres, hc, by rw [hn, hnodes], by rw [he, hedges], hu, hfails, ?_⟩
  intro hzero hsome
  have hempty : found.analyses = [] → found.report.edges = [] := by
    intro hnone
    rw [hreport, hnone]
    rfl
  have hcycles : t.cycles.lt (.int found.report.cycles.length) = true ↔
      found.report.cycles ≠ [] := by
    rw [Number.lt_int_of_same_zero hzero, Int.natCast_pos, List.length_pos_iff]
  have hgraph : found.report.cycles ≠ [] ↔ ∃ v, Relation.TransGen
      (Graph.mk found.report.nodes found.report.edges).Adjacent v v := by
    rw [hreport]
    exact Graph.cycles_build_ne_nil_iff _ _
  rw [hfails, hcycles, hgraph]
  constructor
  · rintro (hnone | hnone | hloop)
    -- Without files there are no imports, so an edge rules out the first two cases.
    · exact absurd (hempty hnone) hsome
    · exact absurd hnone hsome
    · exact hloop
  · exact fun hloop => .inr (.inr hloop)

/-- A project of two files that import each other. -/
def mutualProject : World where
  tree := .dir [("p", .dir [("src", .dir [("lib", .dir [
    ("a.ts", .file "import \x7b b \x7d from './b'\nexport const a = 1\n".toUTF8),
    ("b.ts", .file "import \x7b a \x7d from './a'\nexport const b = 2\n".toUTF8)])])])]
  here := ⟨1, []⟩
  home := ⟨1, ["home"]⟩
  now := ⟨0, 0⟩
  settingsFile := none

theorem mutualProject_fails_gate :
    ∃ found w' res,
      run mutualProject ⟨1, ["p"]⟩ Settings.default.analysis none true = .ok (found, w') ∧
      ReportStore.validate ⟨⟨1, ["p", "docs", "DEPENDENCIES.json"]⟩⟩ .default
        { w' with now := ⟨172800000000, 3600000000⟩ } = .ok res ∧
      res.metrics.edges = .int 2 ∧ res.exitCode = 1 ∧
      ∃ v, Relation.TransGen (Graph.mk found.report.nodes found.report.edges).Adjacent v v := by
  have hcomputed : ((run mutualProject ⟨1, ["p"]⟩ Settings.default.analysis none true).toOption.map
      fun p => (p.1.report.edges.length, p.1.report.cycles)) = some (2, [[0, 1]]) := by
    decide +kernel
  cases hrun : run mutualProject ⟨1, ["p"]⟩ Settings.default.analysis none true with
  | error e => rw [hrun] at hcomputed; cases hcomputed
  | ok p =>
    obtain ⟨found, w'⟩ := p
    rw [hrun] at hcomputed
    obtain ⟨hedges, hcycles⟩ : found.report.edges.length = 2 ∧ found.report.cycles = [[0, 1]] := by
      simpa [Except.toOption] using hcomputed
    have hthresholds : Gate.Thresholds.default.NonNegative := by
      constructor <;> decide +kernel
    have hnow : (Moment.mk 172800000000 3600000000).OnCalendar := by
      constructor <;> decide
    obtain ⟨-, res, hres, -, -, hmetric, -, hfails, hloop⟩ := gate_on_saved_report mutualProject w'
      ⟨1, ["p"]⟩ Settings.default.analysis found .default _ hrun hthresholds hnow (by omega)
    have hexit : res.exitCode = 1 := by
      rw [hfails, hcycles]
      exact .inr (.inr (by decide +kernel))
    have hsome : found.report.edges ≠ [] := by
      intro hnil
      rw [hnil] at hedges
      cases hedges
    refine ⟨found, w', res, rfl, hres, ?_, hexit, (hloop (by decide +kernel) hsome).1 hexit⟩
    rw [hmetric, hedges]
    rfl

end Analysis

end ImportAtlas
