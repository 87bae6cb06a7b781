import ImportAtlas.Proofs.Gate.Faults
import ImportAtlas.Proofs.Json.Access
import ImportAtlas.Report.Store

/-!
# What a report asks of its document

Reading a report goes through the members of its document one after another and stops at the first
one that is not as asked. `Report.demands` lists what is asked, in the order of reading, and reading
fails exactly as the first demand that is not met. A stored text is then a report if it is a
document that meets every demand. It has neither a report nor a reason in two cases only: a whole
number in it has too many digits to be read, or the first demand that it does not meet asks for a
whole number where an infinite double stands. As in the statements about the gate, no depth is too
large for a reader.
-/

namespace ImportAtlas

namespace Json

/-- A whole number can be made of the value. -/
def IsWhole : Json → Prop
  | .bool _ => True
  | .num (.int _) => True
  | .num (.float x) => Binary.IsFinite x
  | .str s => Number.ofText? s ≠ none
  | _ => False

/-- The value can be run through. -/
def HasItems : Json → Prop
  | .arr _ => True
  | .str _ => True
  | .obj _ => True
  | _ => False

/-- An infinite double. -/
def IsInfinite (v : Json) : Prop :=
  ∃ x negative, v = .float x ∧ Binary.ofFloat x = .infinite negative

/-- The value under a key; nothing in particular if there is none. -/
def part (v : Json) (key : String) : Json := (v.member? key).getD .null

/-- What running through the value under a key gives. -/
def itemsAt (v : Json) (key : String) : List Json :=
  match v.member? key with
  | some u => u.elements.toOption.getD []
  | none => []

end Json

/-- What reading asks of a value or of a member of it. -/
inductive Demand where
  /-- The member is there. -/
  | present (v : Json) (key : String)
  /-- The member is there and a whole number can be made of it. -/
  | whole (v : Json) (key : String)
  /-- The member is there and can be run through. -/
  | list (v : Json) (key : String)
  /-- The member can be run through if it is there. -/
  | optional (v : Json) (key : String)
  /-- The value can be run through. -/
  | items (v : Json)
  /-- A whole number can be made of the value. -/
  | number (v : Json)

/-- Why reading stopped, if it did. -/
def stop? {α : Type} : Except Fault α → Option Fault
  | .ok _ => none
  | .error f => some f

namespace Demand

/-- The value is as asked. -/
def Met : Demand → Prop
  | .present v key => ∃ u, v.member? key = some u
  | .whole v key => ∃ u, v.member? key = some u ∧ u.IsWhole
  | .list v key => ∃ u, v.member? key = some u ∧ u.HasItems
  | .optional v key => ∀ u, v.member? key = some u → u.HasItems
  | .items v => v.HasItems
  | .number v => v.IsWhole

/-- A whole number is asked for where an infinite double stands. -/
def AsksInfinite : Demand → Prop
  | .whole v key => ∃ u, v.member? key = some u ∧ u.IsInfinite
  | .number v => v.IsInfinite
  | _ => False

/-- How reading stops at the demand. -/
def fault? : Demand → Option Fault
  | .present v key => stop? (v.field key)
  | .whole v key => stop? (v.field key >>= Json.toInt)
  | .list v key => stop? (v.field key >>= Json.elements)
  | .optional v key => (v.member? key).bind fun u => stop? u.elements
  | .items v => stop? v.elements
  | .number v => stop? v.toInt

end Demand

/-! ## The demands of a report -/

/-- What is asked of an import. -/
def Import.demands (v : Json) : List Demand :=
  [.present v "name", .present v "path", .present v "isRelative", .whole v "line"]

/-- What is asked of an export. -/
def Export.demands (v : Json) : List Demand := [.present v "name", .whole v "line"]

/-- What is asked of an analysis. -/
def FileAnalysis.demands (v : Json) : List Demand :=
  List.flatten
    [[.present v "filePath", .present v "fileName", .present v "category"],
      .optional v "imports" :: (v.itemsAt "imports").flatMap Import.demands,
      .optional v "exports" :: (v.itemsAt "exports").flatMap Export.demands]

/-- What is asked of a node. -/
def SourceFile.demands (v : Json) : List Demand :=
  [.whole v "id", .present v "name", .present v "path", .present v "category", .whole v "imports",
    .whole v "exports"]

/-- What is asked of an edge. -/
def Edge.demands (v : Json) : List Demand :=
  [.whole v "from", .whole v "to", .present v "importName", .present v "importPath",
    .whole v "line"]

/-- What is asked of an unused export. -/
def UnusedExport.demands (v : Json) : List Demand :=
  [.present v "file", .present v "export", .whole v "line"]

/-- What is asked of the project. -/
def ProjectInfo.demands (v : Json) : List Demand :=
  [.present v "name", .present v "root", .present v "analyzer"]

/-- What is asked of the summary. -/
def Summary.demands (v : Json) : List Demand :=
  [.whole v "totalFiles", .whole v "analyzedFiles", .whole v "totalNodes", .whole v "totalEdges",
    .whole v "cyclesCount", .whole v "unusedExportsCount"]

namespace Report

/-- What is asked of a cycle. -/
def cycleDemands (v : Json) : List Demand :=
  .items v :: (v.elements.toOption.getD []).map .number

/-- What is asked of the document of a report, in the order of reading. -/
def demands (v : Json) : List Demand :=
  List.flatten
    [[.present v "project", .present v "summary", .present v "graph", .present v "timestamp"],
      ProjectInfo.demands (v.part "project"),
      Summary.demands (v.part "summary"),
      .optional v "typeNodes" :: (v.itemsAt "typeNodes").flatMap FileAnalysis.demands,
      .list (v.part "graph") "nodes" ::
        ((v.part "graph").itemsAt "nodes").flatMap SourceFile.demands,
      .list (v.part "graph") "edges" :: ((v.part "graph").itemsAt "edges").flatMap Edge.demands,
      .optional v "cycles" :: (v.itemsAt "cycles").flatMap cycleDemands,
      .optional v "unusedExports" :: (v.itemsAt "unusedExports").flatMap UnusedExport.demands]

end Report

/-! ## Single demands -/

/-- A fault that loading does not take for a malformed document. -/
def Fault.Escapes (f : Fault) : Prop := f = .outOfRange ∨ f = .noOperation

namespace Json

variable {v : Json} {key : String} {f : Fault}

theorem field_cases (v : Json) (key : String) :
    (∃ u, v.member? key = some u ∧ v.field key = .ok u) ∨
      v.member? key = none ∧ ∃ f, v.field key = .error f ∧ ¬ f.Escapes := by
  cases v with
  | obj ms => cases h : ms.lookup key <;> simp [field, member?, h, Fault.Escapes]
  | _ => simp [field, member?, Fault.Escapes]

theorem exists_obj_of_member? {u : Json} (h : v.member? key = some u) : ∃ ms, v = .obj ms := by
  cases v with
  | obj ms => exact ⟨ms, rfl⟩
  | _ => cases h

theorem part_eq {u : Json} (h : v.member? key = some u) : v.part key = u := by
  rw [part, h, Option.getD_some]

theorem stop?_elements_eq_none_iff : stop? v.elements = none ↔ v.HasItems := by
  cases v <;> simp [elements, stop?, HasItems]

theorem stop?_toInt_eq_none_iff : stop? v.toInt = none ↔ v.IsWhole := by
  cases v with
  | num n =>
    cases n with
    | int i => simp [toInt, stop?, IsWhole]
    | float x =>
      by_cases hx : Binary.IsFinite x
      · obtain ⟨s, m, e, h, -, -⟩ := hx.exists_ofFloat
        simp [toInt, stop?, IsWhole, h, hx]
      · rcases Binary.ofFloat_of_not_isFinite hx with h | ⟨s, h⟩ <;>
          simp [toInt, stop?, IsWhole, h, hx]
  | str s => cases h : Number.ofText? s <;> simp [toInt, stop?, IsWhole, h]
  | _ => simp [toInt, stop?, IsWhole]

theorem stop?_elements_ne (hf : f.Escapes) : stop? v.elements ≠ some f := by
  rcases hf with rfl | rfl <;> cases v <;> simp [elements, stop?]

theorem stop?_toInt_eq_some_iff (hf : f.Escapes) :
    stop? v.toInt = some f ↔ f = .outOfRange ∧ v.IsInfinite := by
  cases v with
  | num n =>
    cases n with
    | int i => simp [toInt, stop?, IsInfinite]
    | float x =>
      rcases hf with rfl | rfl <;> cases h : Binary.ofFloat x <;>
        simp [toInt, stop?, IsInfinite, h]
  | str s =>
    rcases hf with rfl | rfl <;> cases h : Number.ofText? s <;> simp [toInt, stop?, IsInfinite, h]
  | _ => rcases hf with rfl | rfl <;> simp [toInt, stop?, IsInfinite]

variable {α : Type} {check : Json → Except Fault α}

theorem stop?_field_bind_eq_none_iff :
    stop? (v.field key >>= check) = none ↔ ∃ u, v.member? key = some u ∧ stop? (check u) = none := by
  rcases field_cases v key with ⟨u, hu, h⟩ | ⟨hu, f, h, -⟩ <;>
    simp [hu, h, bind, Except.bind, stop?]

theorem stop?_field_bind_eq_some_iff (hf : f.Escapes) :
    stop? (v.field key >>= check) = some f ↔
      ∃ u, v.member? key = some u ∧ stop? (check u) = some f := by
  rcases field_cases v key with ⟨u, hu, h⟩ | ⟨hu, f', h, hf'⟩
  · simp [hu, h, bind, Except.bind]
  · simp only [hu, h, bind, Except.bind, stop?, Option.some.injEq, reduceCtorEq, false_and,
      exists_false, iff_false]
    rintro rfl
    exact hf' hf

end Json

namespace Demand

theorem fault?_eq_none_iff {q : Demand} : q.fault? = none ↔ q.Met := by
  cases q with
  | present v key =>
    rcases Json.field_cases v key with ⟨u, hu, h⟩ | ⟨hu, f, h, -⟩ <;>
      simp [fault?, Met, hu, h, stop?]
  | whole v key =>
    simp only [fault?, Met, Json.stop?_field_bind_eq_none_iff, Json.stop?_toInt_eq_none_iff]
  | list v key =>
    simp only [fault?, Met, Json.stop?_field_bind_eq_none_iff, Json.stop?_elements_eq_none_iff]
  | optional v key =>
    simp only [fault?, Met, Option.bind_eq_none_iff, Json.stop?_elements_eq_none_iff]
  | items v => exact Json.stop?_elements_eq_none_iff
  | number v => exact Json.stop?_toInt_eq_none_iff

theorem fault?_eq_some_iff {q : Demand} {f : Fault} (hf : f.Escapes) :
    q.fault? = some f ↔ f = .outOfRange ∧ q.AsksInfinite := by
  cases q with
  | present v key =>
    rcases Json.field_cases v key with ⟨u, hu, h⟩ | ⟨hu, f', h, hf'⟩
    · simp [fault?, AsksInfinite, h, stop?]
    · simp only [fault?, AsksInfinite, h, stop?, Option.some.injEq, and_false, iff_false]
      rintro rfl
      exact hf' hf
  | whole v key =>
    simp only [fault?, AsksInfinite, Json.stop?_field_bind_eq_some_iff hf,
      Json.stop?_toInt_eq_some_iff hf]
    grind
  | list v key =>
    simp [fault?, AsksInfinite, Json.stop?_field_bind_eq_some_iff hf, Json.stop?_elements_ne hf]
  | optional v key =>
    simp [fault?, AsksInfinite, Option.bind_eq_some_iff, Json.stop?_elements_ne hf]
  | items v => simp [fault?, AsksInfinite, Json.stop?_elements_ne hf]
  | number v => exact Json.stop?_toInt_eq_some_iff hf

end Demand

/-! ## Reading by demands -/

/-- The computation stops as the first of the demands that is not met. -/
def Reads {α : Type} (x : Except Fault α) (qs : List Demand) : Prop :=
  stop? x = qs.findSome? Demand.fault?

namespace Reads

variable {α β : Type} {x : Except Fault α} {qs qs' : List Demand} {v : Json} {key : String}

theorem exists_ok_iff (h : Reads x qs) : (∃ a, x = .ok a) ↔ ∀ q ∈ qs, q.Met := by
  have hstop : (∃ a, x = .ok a) ↔ stop? x = none := by
    cases x <;> simp [stop?]
  simp only [hstop, show stop? x = _ from h, List.findSome?_eq_none_iff, Demand.fault?_eq_none_iff]

theorem eq_error_iff {f : Fault} (h : Reads x qs) :
    x = .error f ↔
      ∃ met q rest, qs = met ++ q :: rest ∧ q.fault? = some f ∧ ∀ p ∈ met, p.Met := by
  have hstop : x = .error f ↔ stop? x = some f := by
    cases x <;> simp [stop?]
  simp only [hstop, show stop? x = _ from h, List.findSome?_eq_some_iff, Demand.fault?_eq_none_iff]

theorem pure (a : α) : Reads (Pure.pure a) [] := rfl

theorem single {q : Demand} (h : stop? x = q.fault?) : Reads x [q] := by
  rw [Reads, h]
  cases hq : q.fault? <;> simp [List.findSome?, hq]

theorem bind {next : α → Except Fault β} (h : Reads x qs)
    (hnext : ∀ a, x = .ok a → Reads (next a) qs') : Reads (x >>= next) (qs ++ qs') := by
  rw [Reads, List.findSome?_append, ← show stop? x = _ from h]
  cases x with
  | error f => rfl
  | ok a => exact hnext a rfl

theorem mapM {read : Json → Except Fault α} {each : Json → List Demand}
    (h : ∀ u, Reads (read u) (each u)) (us : List Json) :
    Reads (us.mapM read) (us.flatMap each) := by
  induction us with
  | nil => exact pure []
  | cons u us ih =>
    rw [List.mapM_cons, List.flatMap_cons]
    refine (h u).bind fun a _ => ?_
    simpa using ih.bind fun as _ => pure (a :: as)

theorem present {next : Json → Except Fault β}
    (h : ∀ u, v.member? key = some u → Reads (next u) qs) :
    Reads (v.field key >>= next) (.present v key :: qs) := by
  refine bind (single rfl) fun u hu => h u ?_
  obtain ⟨ms, rfl, hlookup⟩ := Json.field_eq_ok_iff.1 hu
  exact hlookup

theorem whole {next : Int → Except Fault β} (h : ∀ i, Reads (next i) qs) :
    Reads (v.field key >>= fun u => u.toInt >>= next) (.whole v key :: qs) := by
  rw [← bind_assoc]
  exact bind (single rfl) fun i _ => h i

variable {read : Json → Except Fault α} {each : Json → List Demand}
  {next : List α → Except Fault β}

theorem list (hread : ∀ u, Reads (read u) (each u)) (h : ∀ as, Reads (next as) qs) :
    Reads (v.field key >>= fun u => u.elements >>= fun us => us.mapM read >>= next)
      (.list v key :: ((v.itemsAt key).flatMap each ++ qs)) := by
  rw [← bind_assoc]
  refine bind (single rfl) fun us hus => ?_
  obtain ⟨u, hu, helements⟩ := bind_eq_ok_iff.1 hus
  obtain ⟨ms, rfl, hlookup⟩ := Json.field_eq_ok_iff.1 hu
  have hitems : (Json.obj ms).itemsAt key = us := by
    simp [Json.itemsAt, Json.member?, hlookup, helements, Except.toOption]
  rw [hitems]
  exact (mapM hread us).bind fun as _ => h as

theorem optional {ms : List (String × Json)} (hv : v = .obj ms)
    (hread : ∀ u, Reads (read u) (each u)) (h : ∀ as, Reads (next as) qs) :
    Reads (v.fieldD key (.arr []) >>= fun u => u.elements >>= fun us => us.mapM read >>= next)
      (.optional v key :: ((v.itemsAt key).flatMap each ++ qs)) := by
  subst hv
  rw [← bind_assoc]
  have hfirst : stop? ((Json.obj ms).fieldD key (.arr []) >>= Json.elements) =
      (Demand.optional (.obj ms) key).fault? := by
    cases hlookup : ms.lookup key <;>
      simp [Json.fieldD, Demand.fault?, Json.member?, hlookup, Json.elements, stop?, Bind.bind,
        Except.bind]
  refine bind (single hfirst) fun us hus => ?_
  have hitems : (Json.obj ms).itemsAt key = us := by
    obtain ⟨u, hu, helements⟩ := bind_eq_ok_iff.1 hus
    cases hu
    cases hlookup : ms.lookup key with
    | none =>
      rw [hlookup] at helements
      cases helements
      simp only [Json.itemsAt, Json.member?, hlookup]
    | some u =>
      rw [hlookup] at helements
      simp only [Json.itemsAt, Json.member?, hlookup, Option.getD_some] at helements ⊢
      rw [helements]
      rfl
  rw [hitems]
  exact (mapM hread us).bind fun as _ => h as

end Reads

theorem Import.reads (path v : Json) : Reads (Import.ofJson path v) (Import.demands v) :=
  .present fun _ _ => .present fun _ _ => .present fun _ _ => .whole fun _ => .pure _

theorem Export.reads (path v : Json) : Reads (Export.ofJson path v) (Export.demands v) :=
  .present fun _ _ => .whole fun _ => .pure _

theorem FileAnalysis.reads (v : Json) : Reads (FileAnalysis.ofJson v) (FileAnalysis.demands v) := by
  refine .present fun path hpath => .present fun _ _ => .present fun _ _ => ?_
  obtain ⟨ms, hv⟩ := Json.exists_obj_of_member? hpath
  exact .optional hv (Import.reads path) fun _ => .optional hv (Export.reads path) fun _ => .pure _

theorem SourceFile.reads (v : Json) : Reads (SourceFile.ofJson v) (SourceFile.demands v) :=
  .whole fun _ => .present fun _ _ => .present fun _ _ => .present fun _ _ => .whole fun _ =>
    .whole fun _ => .pure _

theorem Edge.reads (v : Json) : Reads (Edge.ofJson v) (Edge.demands v) :=
  .whole fun _ => .whole fun _ => .present fun _ _ => .present fun _ _ => .whole fun _ => .pure _

theorem UnusedExport.reads (v : Json) : Reads (UnusedExport.ofJson v) (UnusedExport.demands v) :=
  .present fun _ _ => .present fun _ _ => .whole fun _ => .pure _

theorem ProjectInfo.reads (v : Json) : Reads (ProjectInfo.ofJson v) (ProjectInfo.demands v) :=
  .present fun _ _ => .present fun _ _ => .present fun _ _ => .pure _

theorem Summary.reads (v : Json) : Reads (Summary.ofJson v) (Summary.demands v) :=
  .whole fun _ => .whole fun _ => .whole fun _ => .whole fun _ => .whole fun _ => .whole fun _ =>
    .pure _

namespace Report

theorem cycle_reads (v : Json) : Reads (cycleOfJson v) (cycleDemands v) := by
  refine .bind (.single rfl) fun us hus => ?_
  rw [hus, List.map_eq_flatMap]
  exact .mapM (fun u => .single rfl) us

/-- Reading a report stops as the first demand that its document does not meet. -/
theorem reads (v : Json) : Reads (Report.ofJson v) (demands v) := by
  refine .present fun project hproject => .present fun summary hsummary =>
    .present fun graph hgraph => .present fun _ _ => ?_
  obtain ⟨ms, hv⟩ := Json.exists_obj_of_member? hproject
  rw [Json.part_eq hproject, Json.part_eq hsummary, Json.part_eq hgraph]
  refine (ProjectInfo.reads project).bind fun _ _ => (Summary.reads summary).bind fun _ _ => ?_
  exact .optional hv FileAnalysis.reads fun _ => .list SourceFile.reads fun _ =>
    .list Edge.reads fun _ => .optional hv cycle_reads fun _ =>
      .optional hv UnusedExport.reads fun _ => .pure _

end Report

/-! ## Loading -/

namespace ReportStore

variable {s : ReportStore} {w : World}

/-- Loading passes on why there is no document, and sorts the faults of a document. -/
theorem load_cases (s : ReportStore) (w : World) :
    (∃ e, s.loadRaw w = .error e ∧ s.load w = .error e) ∨
    ∃ d, s.loadRaw w = .ok d ∧
      ((∃ r, Report.ofJson (.obj d) = .ok r ∧ s.load w = .ok r) ∨
      ∃ f, Report.ofJson (.obj d) = .error f ∧
        (f.Escapes ∧ s.load w = .error (.fault f) ∨
          ¬ f.Escapes ∧ s.load w = .error (.malformed s.location.text (.unexpected f)))) := by
  unfold load
  cases s.loadRaw w with
  | error e => exact .inl ⟨e, rfl, rfl⟩
  | ok d =>
    refine .inr ⟨d, rfl, ?_⟩
    simp only [bind, Except.bind]
    cases Report.ofJson (.obj d) with
    | ok r => exact .inl ⟨r, rfl, rfl⟩
    | error f =>
      refine .inr ⟨f, rfl, ?_⟩
      cases f <;> simp [Fault.Escapes, throw, throwThe, MonadExceptOf.throw]

theorem exists_load_ok_iff :
    (∃ r, s.load w = .ok r) ↔ ∃ d, s.loadRaw w = .ok d ∧ ∃ r, Report.ofJson (.obj d) = .ok r := by
  rcases load_cases s w with
    ⟨e, hraw, h⟩ | ⟨d, hraw, ⟨r, hread, h⟩ | ⟨f, hread, ⟨hf, h⟩ | ⟨hf, h⟩⟩⟩ <;>
    simp [*]

theorem exists_load_fault_iff :
    (∃ f, s.load w = .error (.fault f)) ↔ (∃ f, s.loadRaw w = .error (.fault f)) ∨
      ∃ d f, s.loadRaw w = .ok d ∧ Report.ofJson (.obj d) = .error f ∧ f.Escapes := by
  rcases load_cases s w with
    ⟨e, hraw, h⟩ | ⟨d, hraw, ⟨r, hread, h⟩ | ⟨f, hread, ⟨hf, h⟩ | ⟨hf, h⟩⟩⟩ <;>
    simp [*]

theorem exists_load_missing_iff :
    (∃ path, s.load w = .error (.missing path)) ↔
      ∃ path, s.loadRaw w = .error (.missing path) := by
  rcases load_cases s w with
    ⟨e, hraw, h⟩ | ⟨d, hraw, ⟨r, hread, h⟩ | ⟨f, hread, ⟨hf, h⟩ | ⟨hf, h⟩⟩⟩ <;>
    simp [*]

theorem exists_loadRaw_missing_iff :
    (∃ path, s.loadRaw w = .error (.missing path)) ↔ w.hasFile s.location = false := by
  unfold loadRaw World.hasFile
  cases w.find s.location with
  | error e => simp
  | ok tree =>
    cases tree with
    | dir entries => simp [FileTree.isFile, FileTree.isDir]
    | file content =>
      refine iff_of_false ?_ (by simp [FileTree.isFile, FileTree.isDir])
      rintro ⟨path, h⟩
      dsimp only at h
      split at h
      · cases h
      · split at h <;> cases h

/-- A stored text is loaded if it is a document that meets every demand, and missing only if there
is no file. Of all others loading gives the reason why they are malformed, unless a whole number
has too many digits to be read or the first demand that is not met asks for a whole number where an
infinite double stands. A reader with a limit on how deeply values nest fails on deeper texts as
well. -/
theorem load_outcomes (s : ReportStore) (w : World) :
    ((∃ r, s.load w = .ok r) ↔ ∃ text d, w.readText s.location = .ok text ∧
      Json.parse text = .ok (.obj d) ∧ ∀ q ∈ Report.demands (.obj d), q.Met) ∧
    ((∃ path, s.load w = .error (.missing path)) ↔ w.hasFile s.location = false) ∧
    ((∃ f, s.load w = .error (.fault f)) ↔ ∃ text, w.readText s.location = .ok text ∧
      (Json.parse (τ := String) text = .error .tooManyDigits ∨
        ∃ d met q rest, Json.parse text = .ok (.obj d) ∧
          Report.demands (.obj d) = met ++ q :: rest ∧ (∀ p ∈ met, p.Met) ∧ q.AsksInfinite)) := by
  refine ⟨?_, exists_load_missing_iff.trans exists_loadRaw_missing_iff, ?_⟩
  · simp only [exists_load_ok_iff, loadRaw_eq_ok_iff, (Report.reads _).exists_ok_iff]
    constructor
    · rintro ⟨d, ⟨text, hread, hparse⟩, hmet⟩
      exact ⟨text, d, hread, hparse, hmet⟩
    · rintro ⟨text, d, hread, hparse, hmet⟩
      exact ⟨d, ⟨text, hread, hparse⟩, hmet⟩
  · rw [exists_load_fault_iff, exists_loadRaw_fault_iff]
    constructor
    · rintro (⟨text, hread, hdigits⟩ | ⟨d, f, hload, hfault, hf⟩)
      · exact ⟨text, hread, .inl hdigits⟩
      · obtain ⟨text, hread, hparse⟩ := loadRaw_eq_ok_iff.1 hload
        obtain ⟨met, q, rest, hsplit, hq, hmet⟩ := (Report.reads _).eq_error_iff.1 hfault
        exact ⟨text, hread, .inr
          ⟨d, met, q, rest, hparse, hsplit, hmet, ((Demand.fault?_eq_some_iff hf).1 hq).2⟩⟩
    · rintro ⟨text, hread, hdigits | ⟨d, met, q, rest, hparse, hsplit, hmet, hq⟩⟩
      · exact .inl ⟨text, hread, hdigits⟩
      · have hf : Fault.outOfRange.Escapes := .inl rfl
        have hfault := (Report.reads _).eq_error_iff.2
          ⟨met, q, rest, hsplit, (Demand.fault?_eq_some_iff hf).2 ⟨rfl, hq⟩, hmet⟩
        exact .inr ⟨d, _, loadRaw_eq_ok_iff.2 ⟨text, hread, hparse⟩, hfault, hf⟩

/-- A report on endlessly many files. -/
def endlessText : String :=
  "\x7b\"project\": \x7b\"name\": 0, \"root\": 0, \"analyzer\": 0\x7d, \"graph\": 0, " ++
  "\"summary\": \x7b\"totalFiles\": 1e999\x7d, \"timestamp\": 0\x7d"

/-- A world where this is the stored report. -/
def endlessArchive : World where
  tree := .dir [("p", .dir [("report.json", .file endlessText.toUTF8)])]
  here := ⟨1, ["p"]⟩
  home := ⟨1, []⟩
  now := ⟨0, 0⟩
  settingsFile := none

/-- A document that is neither loaded nor called malformed. -/
theorem endlessArchive_faults :
    (∃ d, (⟨⟨0, ["report.json"]⟩⟩ : ReportStore).loadRaw endlessArchive = .ok d) ∧
    ∃ f, (⟨⟨0, ["report.json"]⟩⟩ : ReportStore).load endlessArchive = .error (.fault f) := by
  have htext : endlessArchive.readText ⟨0, ["report.json"]⟩ = .ok endlessText :=
    World.readText_eq_ok_iff.2 ⟨_, rfl, FileTree.decode_toUTF8 (by decide +kernel)⟩
  have hread : (Json.parse endlessText).toOption.map (fun v => stop? (Report.ofJson v)) =
      some (some .outOfRange) := by
    decide +kernel
  cases hparse : Json.parse (τ := String) endlessText with
  | error e => simp [hparse, Except.toOption] at hread
  | ok v =>
    simp only [hparse, Except.toOption, Option.map_some, Option.some.injEq] at hread
    cases v with
    | obj d =>
      have hload := loadRaw_eq_ok_iff.2 ⟨endlessText, htext, hparse⟩
      refine ⟨⟨d, hload⟩, exists_load_fault_iff.2 (.inr ⟨d, .outOfRange, hload, ?_, .inl rfl⟩)⟩
      cases hreport : Report.ofJson (.obj d) <;> simp_all [stop?]
    | _ => cases hread

end ReportStore

end ImportAtlas
