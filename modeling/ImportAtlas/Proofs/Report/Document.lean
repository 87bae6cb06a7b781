import ImportAtlas.Proofs.Except
import ImportAtlas.Proofs.Json.Storable
import ImportAtlas.Report.Document

/-!
# Reports as documents and back

A report whose declarations carry the path of their file is read from its document: the path is not
written with each declaration but taken from the analysis around it. A report that was read from a
document is of that kind, and if the document could be stored, so can the document of the report.
-/

namespace ImportAtlas

open Json

variable {τ σ : Type}

/-! ## Lists -/

/-- A list that was read item by item can be stored if each item can. -/
theorem storable_mapM {α : Type} {write : α → Json} {read : Json → Except Fault α}
    (step : ∀ {v a}, Storable v → read v = .ok a → Storable (write a)) {v : Json} {vs : List Json}
    {as : List α} (hv : Storable v) (elements : v.elements = .ok vs) (h : vs.mapM read = .ok as) :
    Storable (.arr (as.map write)) := by
  refine storable_arr_iff.2 fun u hu => ?_
  obtain ⟨a, ha, rfl⟩ := List.mem_map.1 hu
  obtain ⟨w, hw, hread⟩ := exists_mem_of_mapM_ok h a ha
  exact step (storable_elements hv elements w hw) hread

/-! ## Declarations -/

/-- Every declaration carries the path of the file. -/
def FileAnalysis.Owned (a : FileAnalysis τ) : Prop :=
  (∀ i ∈ a.imports, i.file = a.path) ∧ ∀ e ∈ a.exports, e.file = a.path

theorem FileAnalysis.Owned.map {a : FileAnalysis τ} (h : a.Owned) (f : τ → σ) :
    (a.map f).Owned := by
  constructor
  · intro i hi
    obtain ⟨j, hj, rfl⟩ := List.mem_map.1 hi
    exact congrArg f (h.1 j hj)
  · intro e he
    obtain ⟨j, hj, rfl⟩ := List.mem_map.1 he
    exact congrArg f (h.2 j hj)

theorem Import.ofJson_toJson {i : Import Json} {path : Json} (h : i.file = path) :
    Import.ofJson path i.toJson = .ok i := by
  subst h
  rfl

theorem Import.of_ofJson {path v : Json} {i : Import Json} (h : Import.ofJson path v = .ok i) :
    i.file = path ∧ (Storable v → Storable i.toJson) := by
  simp only [ofJson, bind_eq_ok_iff] at h
  obtain ⟨name, hname, specifier, hspecifier, isRelative, -, line, hline, n, hn, h⟩ := h
  cases h
  refine ⟨rfl, fun hv => storable_obj (by simp) ⟨storable_field hv hname,
    storable_field hv hspecifier, storable_bool _, storable_toInt (storable_field hv hline) hn⟩⟩

theorem Export.ofJson_toJson {e : Export Json} {path : Json} (h : e.file = path) :
    Export.ofJson path e.toJson = .ok e := by
  subst h
  rfl

theorem Export.of_ofJson {path v : Json} {e : Export Json} (h : Export.ofJson path v = .ok e) :
    e.file = path ∧ (Storable v → Storable e.toJson) := by
  simp only [ofJson, bind_eq_ok_iff] at h
  obtain ⟨name, hname, line, hline, n, hn, h⟩ := h
  cases h
  exact ⟨rfl, fun hv => storable_obj (by simp) ⟨storable_field hv hname,
    storable_toInt (storable_field hv hline) hn⟩⟩

theorem FileAnalysis.ofJson_toJson {a : FileAnalysis Json} (h : a.Owned) :
    FileAnalysis.ofJson a.toJson = .ok a := by
  have himports := mapM_map_eq_ok fun i hi => Import.ofJson_toJson (h.1 i hi)
  have hexports := mapM_map_eq_ok fun e he => Export.ofJson_toJson (h.2 e he)
  show (do
    let imports ← (a.imports.map Import.toJson).mapM (Import.ofJson a.path)
    let exports ← (a.exports.map Export.toJson).mapM (Export.ofJson a.path)
    return ⟨a.name, a.path, a.category, imports, exports⟩ : Except Fault (FileAnalysis Json)) = _
  rw [himports, hexports]
  rfl

theorem FileAnalysis.of_ofJson {v : Json} {a : FileAnalysis Json}
    (h : FileAnalysis.ofJson v = .ok a) : a.Owned ∧ (Storable v → Storable a.toJson) := by
  simp only [ofJson, bind_eq_ok_iff] at h
  obtain ⟨path, hpath, name, hname, category, hcategory, is, his, imports, himports, is', his',
    es, hes, exports, hexports, es', hes', h⟩ := h
  cases h
  refine ⟨⟨fun i hi => ?_, fun e he => ?_⟩, fun hv => ?_⟩
  · obtain ⟨u, -, hu⟩ := exists_mem_of_mapM_ok his' i hi
    exact (Import.of_ofJson hu).1
  · obtain ⟨u, -, hu⟩ := exists_mem_of_mapM_ok hes' e he
    exact (Export.of_ofJson hu).1
  · refine storable_obj (by simp) ⟨storable_field hv hname, storable_field hv hpath,
      storable_field hv hcategory, ?_, ?_⟩
    · exact storable_mapM (fun hu h => (Import.of_ofJson h).2 hu) (storable_fieldD hv storable_arr_nil his)
        himports his'
    · exact storable_mapM (fun hu h => (Export.of_ofJson h).2 hu) (storable_fieldD hv storable_arr_nil hes)
        hexports hes'

/-! ## The graph and what was found in it -/

theorem SourceFile.storable_toJson {v : Json} {n : SourceFile Json} (hv : Storable v)
    (h : SourceFile.ofJson v = .ok n) : Storable n.toJson := by
  simp only [ofJson, bind_eq_ok_iff] at h
  obtain ⟨id, hid, i, hi, name, hname, path, hpath, category, hcategory, imports, himports, j, hj,
    exports, hexports, k, hk, h⟩ := h
  cases h
  exact storable_obj (by simp) ⟨storable_toInt (storable_field hv hid) hi, storable_field hv hname,
    storable_field hv hpath, storable_field hv hcategory,
    storable_toInt (storable_field hv himports) hj, storable_toInt (storable_field hv hexports) hk⟩

theorem Edge.storable_toJson {v : Json} {e : Edge Json} (hv : Storable v)
    (h : Edge.ofJson v = .ok e) : Storable e.toJson := by
  simp only [ofJson, bind_eq_ok_iff] at h
  obtain ⟨source, hsource, i, hi, target, htarget, j, hj, name, hname, specifier, hspecifier, line,
    hline, k, hk, h⟩ := h
  cases h
  exact storable_obj (by simp) ⟨storable_toInt (storable_field hv hsource) hi,
    storable_toInt (storable_field hv htarget) hj, storable_field hv hname,
    storable_field hv hspecifier, storable_toInt (storable_field hv hline) hk⟩

theorem UnusedExport.storable_toJson {v : Json} {u : UnusedExport Json} (hv : Storable v)
    (h : UnusedExport.ofJson v = .ok u) : Storable u.toJson := by
  simp only [ofJson, bind_eq_ok_iff] at h
  obtain ⟨file, hfile, name, hname, line, hline, i, hi, h⟩ := h
  cases h
  exact storable_obj (by simp) ⟨storable_field hv hfile, storable_field hv hname,
    storable_toInt (storable_field hv hline) hi⟩

theorem Report.storable_cycle {v : Json} {c : List Int} (hv : Storable v)
    (h : cycleOfJson v = .ok c) : Storable (.arr (c.map .int) : Json) := by
  simp only [cycleOfJson, bind_eq_ok_iff] at h
  obtain ⟨vs, hvs, hc⟩ := h
  exact storable_mapM storable_toInt hv hvs hc

/-! ## The project and the counts -/

theorem ProjectInfo.storable_toJson {v : Json} {p : ProjectInfo Json} (hv : Storable v)
    (h : ProjectInfo.ofJson v = .ok p) : Storable p.toJson := by
  simp only [ofJson, bind_eq_ok_iff] at h
  obtain ⟨name, hname, root, hroot, analyzer, hanalyzer, h⟩ := h
  cases h
  exact storable_obj (by simp) ⟨storable_field hv hname, storable_field hv hroot,
    storable_field hv hanalyzer⟩

theorem Summary.storable_toJson {v : Json} {s : Summary} (hv : Storable v)
    (h : Summary.ofJson v = .ok s) : Storable s.toJson := by
  simp only [ofJson, bind_eq_ok_iff] at h
  obtain ⟨a, ha, i, hi, b, hb, j, hj, c, hc, k, hk, d, hd, l, hl, e, he, m, hm, f, hf, n, hn, h⟩ := h
  cases h
  exact storable_obj (by simp) ⟨storable_toInt (storable_field hv ha) hi,
    storable_toInt (storable_field hv hb) hj, storable_toInt (storable_field hv hc) hk,
    storable_toInt (storable_field hv hd) hl, storable_toInt (storable_field hv he) hm,
    storable_toInt (storable_field hv hf) hn⟩

/-! ## Whole reports -/

namespace Report

/-- Every declaration carries the path of its file. -/
def Owned (r : Report τ) : Prop := ∀ a ∈ r.typeNodes, a.Owned

/-- A report is read from its document. -/
theorem ofJson_toJson {r : Report Json} (h : r.Owned) : ofJson r.toJson = .ok r := by
  have htypes := mapM_map_eq_ok fun a ha => FileAnalysis.ofJson_toJson (h a ha)
  have hnodes : (r.nodes.map SourceFile.toJson).mapM SourceFile.ofJson = .ok r.nodes :=
    mapM_map_eq_ok fun _ _ => rfl
  have hedges : (r.edges.map Edge.toJson).mapM Edge.ofJson = .ok r.edges :=
    mapM_map_eq_ok fun _ _ => rfl
  have hcycle (c : List Int) : cycleOfJson (.arr (c.map .int)) = .ok c :=
    mapM_map_eq_ok fun _ _ => rfl
  have hcycles : (r.cycles.map fun c => Json.arr (c.map .int)).mapM cycleOfJson = .ok r.cycles :=
    mapM_map_eq_ok fun c _ => hcycle c
  have hunused : (r.unusedExports.map UnusedExport.toJson).mapM UnusedExport.ofJson =
      .ok r.unusedExports := mapM_map_eq_ok fun _ _ => rfl
  show (do
    let typeNodes ← (r.typeNodes.map FileAnalysis.toJson).mapM FileAnalysis.ofJson
    let nodes ← (r.nodes.map SourceFile.toJson).mapM SourceFile.ofJson
    let edges ← (r.edges.map Edge.toJson).mapM Edge.ofJson
    let cycles ← (r.cycles.map fun c => Json.arr (c.map .int)).mapM cycleOfJson
    let unused ← (r.unusedExports.map UnusedExport.toJson).mapM UnusedExport.ofJson
    return ⟨r.timestamp, r.project, r.summary, typeNodes, nodes, edges, cycles, unused⟩ :
      Except Fault (Report Json)) = _
  rw [htypes, hnodes, hedges, hcycles, hunused]
  rfl

/-- A report that was read carries its paths, and its document can be stored if the document that it
was read from can. -/
theorem of_ofJson {v : Json} {r : Report Json} (h : ofJson v = .ok r) :
    r.Owned ∧ (Storable v → Storable r.toJson) := by
  simp only [ofJson, bind_eq_ok_iff] at h
  obtain ⟨project, hproject, summary, hsummary, graph, hgraph, timestamp, htimestamp, p, hp, s, hs,
    ts, hts, types, htypes, typeNodes, htypeNodes, ns, hns, nodes, hnodes, ns', hns', es, hes, edges,
    hedges, es', hes', cs, hcs, cycles, hcycles, cs', hcs', us, hus, unused, hunused, us', hus', h⟩ := h
  cases h
  refine ⟨fun a ha => ?_, fun hv => ?_⟩
  · obtain ⟨u, -, hu⟩ := exists_mem_of_mapM_ok htypeNodes a ha
    exact (FileAnalysis.of_ofJson hu).1
  · have hgraph' := storable_field hv hgraph
    have hnested : Storable (.obj [("nodes", .arr (ns'.map SourceFile.toJson)),
        ("edges", .arr (es'.map Edge.toJson))]) :=
      storable_obj (by simp)
        ⟨storable_mapM SourceFile.storable_toJson (storable_field hgraph' hns) hnodes hns',
          storable_mapM Edge.storable_toJson (storable_field hgraph' hes) hedges hes'⟩
    exact storable_obj (by simp) ⟨storable_field hv htimestamp,
      ProjectInfo.storable_toJson (storable_field hv hproject) hp,
      Summary.storable_toJson (storable_field hv hsummary) hs,
      storable_mapM (fun hu h => (FileAnalysis.of_ofJson h).2 hu) (storable_fieldD hv storable_arr_nil hts)
        htypes htypeNodes,
      hnested, storable_mapM storable_cycle (storable_fieldD hv storable_arr_nil hcs) hcycles hcs',
      storable_mapM UnusedExport.storable_toJson (storable_fieldD hv storable_arr_nil hus) hunused hus'⟩

end Report

end ImportAtlas
