import ImportAtlas.Proofs.Analysis.Run
import ImportAtlas.Proofs.Graph.Built
import ImportAtlas.Proofs.Unused.Indexed

/-!
# The parts of a report agree

Files drop out of an analysis when they hold no text, and the report keeps several lists and counts
of what is left. `Consistent` says how they hang together; every run that gives a report gives a
consistent one.
-/

namespace ImportAtlas

/-- The report of a run agrees with the files that were discovered and with itself. -/
structure AnalysisRun.Consistent (w : World) (root : Location) (settings : AnalysisSettings)
    (found : AnalysisRun) : Prop where
  discovered : Discovery.run w root settings.subtrees settings.exclude = .ok found.discovery
  /-- What is analysed are the discovered files that are valid UTF-8. -/
  analyses : found.analyses =
    (w.texts found.discovery.files).map (Analysis.ofFile w root settings)
  totalFiles : found.report.summary.totalFiles = found.discovery.files.length
  analyzedFiles : found.report.summary.analyzedFiles =
    found.discovery.files.countP fun f => (w.text? f.1).isSome
  totalNodes : found.report.summary.totalNodes = found.report.nodes.length
  nodes : (found.report.nodes.length : Int) = found.report.summary.analyzedFiles
  totalEdges : found.report.summary.totalEdges = found.report.edges.length
  cyclesCount : found.report.summary.cyclesCount = found.report.cycles.length
  unusedExportsCount : found.report.summary.unusedExportsCount = found.report.unusedExports.length
  ids : found.report.nodes.map (·.id) = (List.range found.report.nodes.length).map Int.ofNat
  /-- Nodes stand in the order of discovery. -/
  paths : found.report.nodes.map (·.path) =
    (w.texts found.discovery.files).map fun f => Location.relativeTo w.here root f.1
  /-- Each node counts the declarations of its file. -/
  counts : found.report.nodes.map (fun n => (n.imports, n.exports)) =
    (w.texts found.discovery.files).map fun f =>
      (((importsOf settings.aliases (Location.relativeTo w.here root f.1) f.2.2).length : Int),
        ((exportsOf (Location.relativeTo w.here root f.1) f.2.2).length : Int))
  ends : ∀ e ∈ found.report.edges,
    e.source ∈ found.report.nodes.map (·.id) ∧ e.target ∈ found.report.nodes.map (·.id)
  members : ∀ c ∈ found.report.cycles, ∀ v ∈ c, v ∈ found.report.nodes.map (·.id)
  /-- An unused export is one of the exports of the file that a node stands for. -/
  unused : ∀ u ∈ found.report.unusedExports, u.file ∈ found.report.nodes.map (·.path) ∧
    ∃ f ∈ w.texts found.discovery.files, Location.relativeTo w.here root f.1 = u.file ∧
      ∃ e ∈ exportsOf u.file f.2.2, e.name = u.name ∧ e.line = u.line
  typeNodes : found.report.typeNodes = found.analyses.filter (·.category = "type")

theorem World.length_texts (w : World) (files : List (Location × String)) :
    (w.texts files).length = files.countP fun f => (w.text? f.1).isSome := by
  rw [texts, List.length_filterMap_eq_countP]
  simp only [Option.isSome_map]

namespace Analysis

variable {w w' : World} {root : Location} {settings : AnalysisSettings} {found : AnalysisRun}

/-- An unused export of some analyses is an export of one of them, whose path is that of a node. -/
theorem exists_export_of_unused {r : Resolver} {segments : Category.Segments}
    {analyses : List (FileAnalysis String)} {u : UnusedExport String}
    (h : u ∈ Unused.find r segments analyses) :
    u.file ∈ (Graph.build r analyses).nodes.map (·.path) ∧
      ∃ a ∈ analyses, a.path = u.file ∧ ∃ e ∈ a.exports, e.name = u.name ∧ e.line = u.line := by
  obtain ⟨a, ha, e, he, -, rfl⟩ := Unused.mem_find.1 h
  rw [Graph.map_nodes_build (fun _ _ => rfl)]
  exact ⟨List.mem_map_of_mem ha, a, ha, rfl, e, he, rfl, rfl⟩

theorem consistent_of_examine (h : examine w root settings = .ok found) :
    found.Consistent w root settings := by
  obtain ⟨d, timestamp, hd, -, rfl⟩ := examine_eq_ok h
  have hfiles := files_eq w root settings d
  generalize files w root settings d = analyses at hfiles
  let g := Graph.build (resolver settings analyses) analyses
  have hlength : g.nodes.length = analyses.length := List.length_mapIdx
  have hcount : analyses.length = d.files.countP fun f => (w.text? f.1).isSome := by
    rw [hfiles, List.length_map, World.length_texts]
  constructor
  case discovered => exact hd
  case analyses => exact hfiles
  case totalFiles => rfl
  case analyzedFiles => exact congrArg Nat.cast hcount
  case totalNodes => rfl
  case nodes => exact congrArg Nat.cast hlength
  case totalEdges => rfl
  case cyclesCount => rfl
  case unusedExportsCount => rfl
  case ids =>
    show g.nodes.map (·.id) = (List.range g.nodes.length).map Int.ofNat
    rw [hlength]
    exact Graph.ids_build _ _
  case paths =>
    have hpaths : g.nodes.map (·.path) = analyses.map (·.path) :=
      Graph.map_nodes_build (fun _ _ => rfl) _ _
    refine hpaths.trans ?_
    rw [hfiles, List.map_map]
    rfl
  case counts =>
    have hcounts : g.nodes.map (fun n => (n.imports, n.exports)) =
        analyses.map fun a => ((a.imports.length : Int), (a.exports.length : Int)) :=
      Graph.map_nodes_build (fun _ _ => rfl) _ _
    refine hcounts.trans ?_
    rw [hfiles, List.map_map]
    rfl
  case ends => exact fun e he => Graph.edge_ends he
  case members =>
    exact fun c hc v hv =>
      Graph.reached_build ((Links.isCycle_of_mem_cycles hc).reached v hv)
  case unused =>
    intro u hu
    obtain ⟨hnode, a, ha, hpath, e, he, hname, hline⟩ := exists_export_of_unused hu
    refine ⟨hnode, ?_⟩
    rw [hfiles] at ha
    obtain ⟨f, hf, rfl⟩ := List.mem_map.1 ha
    exact ⟨f, hf, hpath, e, hpath ▸ he, hname, hline⟩
  case typeNodes => rfl

/-- Every run gives a report that agrees with the discovered files and with itself, whether or not
the report is saved or published. -/
theorem run_consistent (w w' : World) (root : Location) (settings : AnalysisSettings)
    (sink : Option MemorySink) (persist : Bool) (found : AnalysisRun)
    (h : run w root settings sink persist = .ok (found, w')) :
    found.Consistent w root settings := by
  have hfound := consistent_of_examine (examine_of_run h)
  exact { hfound with }

/-- A project with a type, a file that imports it and exports something unused, and a file that is
no text. -/
def mixedProject : World where
  tree := .dir [("p", .dir [("src", .dir [
    ("lib", .dir [
      ("a.ts", .file "import \x7b T \x7d from '../types/t'\nexport const a = 1\n".toUTF8),
      ("b.ts", .file ⟨#[0xff, 0xfe]⟩)]),
    ("types", .dir [("t.ts", .file "export type T = string\n".toUTF8)])])])]
  here := ⟨1, []⟩
  home := ⟨1, ["home"]⟩
  now := ⟨0, 0⟩
  settingsFile := none

theorem mixedProject_consistent :
    ∃ found w',
      run mixedProject ⟨1, ["p"]⟩ Settings.default.analysis none false = .ok (found, w') ∧
      found.Consistent mixedProject ⟨1, ["p"]⟩ Settings.default.analysis ∧
      found.report.summary = ⟨3, 2, 2, 1, 0, 1⟩ ∧
      found.report.nodes.map (·.path) = ["src/types/t.ts", "src/lib/a.ts"] ∧
      found.report.typeNodes.map (·.path) = ["src/types/t.ts"] ∧
      found.report.unusedExports = [⟨"src/lib/a.ts", "a", 2⟩] := by
  have hcomputed :
      ((run mixedProject ⟨1, ["p"]⟩ Settings.default.analysis none false).toOption.map
        fun p => (p.1.report.summary, p.1.report.nodes.map (·.path),
          p.1.report.typeNodes.map (·.path), p.1.report.unusedExports)) =
      some (⟨3, 2, 2, 1, 0, 1⟩, ["src/types/t.ts", "src/lib/a.ts"], ["src/types/t.ts"],
        [⟨"src/lib/a.ts", "a", 2⟩]) := by
    decide +kernel
  cases hrun : run mixedProject ⟨1, ["p"]⟩ Settings.default.analysis none false with
  | error e => rw [hrun] at hcomputed; cases hcomputed
  | ok p =>
    obtain ⟨found, w'⟩ := p
    rw [hrun] at hcomputed
    simp only [Except.toOption, Option.map_some, Option.some.injEq, Prod.mk.injEq] at hcomputed
    exact ⟨found, w', rfl, run_consistent _ _ _ _ _ _ _ hrun, hcomputed⟩

end Analysis

end ImportAtlas
