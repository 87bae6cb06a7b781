import ImportAtlas.Proofs.Except
import ImportAtlas.Proofs.Json.Printable
import ImportAtlas.Proofs.World.Written
import ImportAtlas.Report.Store
import Mathlib.Data.List.Basic

/-!
# A saved report is read back

The text of a document has no carriage return, so its line ends come back as they were written.
Together with the round trip of plain documents, what `save` leaves is what `loadRaw` gives.
-/

namespace ImportAtlas

namespace Json

theorem Plain.cr_notMem_render {v : Json} (h : Plain v) (level : Nat) :
    '\r' ∉ (render .lines level v).toList := by
  have hprint : ∀ c, Printable c → c ≠ '\r' := by
    rintro c hc rfl
    exact absurd hc (by decide)
  have hbreak (level : Nat) : ∀ c ∈ (Style.lines.breakAt level).toList, c ≠ '\r' := by
    rintro c hc rfl
    simp [Style.lines] at hc
  have hcomma : ∀ c ∈ Style.lines.afterComma.toList, c ≠ '\r' :=
    forall_mem_of_all (by decide)
  exact fun hmem => h.forall_mem_render hprint hbreak hcomma level _ hmem rfl

end Json

/-! ## Documents in a world -/

/-- Saving writes the text of a document that can be written. -/
theorem ReportStore.save_eq_ok_iff {w w' : World} {l : Location} {document : Json} :
    ReportStore.save ⟨l⟩ document w = .ok w' ↔
      document.isWritable = true ∧ w.save l document.pretty = .ok w' := by
  unfold ReportStore.save World.save
  cases w.makeDirs l.parent with
  | error e => simp [bind, Except.bind]
  | ok w₁ =>
    by_cases hwritable : document.isWritable = true
    · simp only [hwritable, if_true, true_and, bind, Except.bind]
      cases w₁.writeText l document.pretty <;> simp
    · simp [hwritable]

/-- What was saved is loaded, at any later time. -/
theorem ReportStore.loadRaw_save {s : ReportStore} {d : Gate.Document} {w w' : World}
    (plain : Json.Plain (.obj d)) (h : s.save (.obj d) w = .ok w') (now : Moment) :
    s.loadRaw { w' with now := now } = .ok d := by
  obtain ⟨writable, hsave⟩ := save_eq_ok_iff.1 h
  obtain ⟨w₁, -, hwrite⟩ := bind_eq_ok_iff.1 hsave
  have hdecode : FileTree.decode (Json.obj d).pretty.toUTF8 = .ok (Json.obj d).pretty :=
    FileTree.decode_toUTF8 (plain.cr_notMem_render 0)
  simp only [loadRaw, World.find_writeText hwrite, hdecode, Json.parse_pretty plain writable]

/-! ## Documents of reports -/

theorem Json.plain_arr_map {α β : Type} {f : β → Json} {g : α → β} (h : ∀ a, Plain (f (g a)))
    (as : List α) : Plain (.arr ((as.map g).map f)) := by
  refine .arr fun v hv => ?_
  simp only [List.map_map, List.mem_map] at hv
  obtain ⟨a, -, rfl⟩ := hv
  exact h a

theorem Json.plain_obj {ms : List (String × Json)} (keys : (ms.map (·.1)).Nodup)
    (values : ms.Forall fun m => Plain m.2) : Plain (.obj ms) :=
  .obj keys (List.forall_iff_forall_mem.1 values)

theorem Import.plain_toJson (i : Import String) : Json.Plain (i.map .str).toJson :=
  Json.plain_obj (by simp) ⟨.str _, .str _, .bool _, .num _⟩

theorem Export.plain_toJson (e : Export String) : Json.Plain (e.map .str).toJson :=
  Json.plain_obj (by simp) ⟨.str _, .num _⟩

theorem FileAnalysis.plain_toJson (a : FileAnalysis String) : Json.Plain (a.map .str).toJson :=
  Json.plain_obj (by simp) ⟨.str _, .str _, .str _, Json.plain_arr_map Import.plain_toJson _,
    Json.plain_arr_map Export.plain_toJson _⟩

theorem SourceFile.plain_toJson (n : SourceFile String) : Json.Plain (n.map .str).toJson :=
  Json.plain_obj (by simp) ⟨.num _, .str _, .str _, .str _, .num _, .num _⟩

theorem Edge.plain_toJson (e : Edge String) : Json.Plain (e.map .str).toJson :=
  Json.plain_obj (by simp) ⟨.num _, .num _, .str _, .str _, .num _⟩

theorem UnusedExport.plain_toJson (u : UnusedExport String) : Json.Plain (u.map .str).toJson :=
  Json.plain_obj (by simp) ⟨.str _, .str _, .num _⟩

theorem Summary.plain_toJson (s : Summary) : Json.Plain s.toJson :=
  Json.plain_obj (by simp) ⟨.num _, .num _, .num _, .num _, .num _, .num _⟩

/-- The document of a report repeats no key. -/
theorem Report.plain_toJson (r : Report String) : Json.Plain (ofTexts r).toJson := by
  have hproject : Json.Plain (ofTexts r).project.toJson :=
    Json.plain_obj (by simp) ⟨.str _, .str _, .str _⟩
  have hgraph : Json.Plain (.obj [("nodes", .arr ((ofTexts r).nodes.map SourceFile.toJson)),
      ("edges", .arr ((ofTexts r).edges.map Edge.toJson))]) :=
    Json.plain_obj (by simp) ⟨Json.plain_arr_map SourceFile.plain_toJson _,
      Json.plain_arr_map Edge.plain_toJson _⟩
  have hcycles :
      Json.Plain (.arr ((ofTexts r).cycles.map fun c => .arr (c.map .int)) : Json) := by
    refine .arr fun v hv => ?_
    obtain ⟨c, -, rfl⟩ := List.mem_map.1 hv
    refine .arr fun u hu => ?_
    obtain ⟨i, -, rfl⟩ := List.mem_map.1 hu
    exact .num _
  exact Json.plain_obj (by simp) ⟨.str _, hproject, Summary.plain_toJson _,
    Json.plain_arr_map FileAnalysis.plain_toJson _, hgraph, hcycles,
    Json.plain_arr_map UnusedExport.plain_toJson _⟩

end ImportAtlas
