import ImportAtlas.Proofs.Memory.Kept
import ImportAtlas.Proofs.World.Made

/-!
# A memory file after report upon report

Publishing reads the file, sets what the report says and writes the file anew. Each time the file
comes back as it was written, so after any number of reports it holds what one long list of remarks
gives: those of the initial lines, then those of each report in turn.
-/

namespace ImportAtlas

variable {τ : Type} [Wording τ]

/-! ## Projections -/

namespace Projection

/-- All entities of a projection, those of the whole graph last. -/
def allEntities (p : Projection CodeUnits) : List (Entity CodeUnits) :=
  p.entities ++ p.graphEntities

/-- What a projection says to a memory, in the order in which it is set. -/
def remarks (p : Projection CodeUnits) : List Remark :=
  p.allEntities.map .entity ++ p.relations.map .relation

theorem into_ofRemarks (p : Projection CodeUnits) (told : List Remark) :
    p.into (Memory.ofRemarks told) = Memory.ofRemarks (told ++ p.remarks) := by
  rw [Memory.ofRemarks, Memory.ofRemarks, List.foldl_append, remarks, List.foldl_append,
    List.foldl_map, List.foldl_map]
  rfl

theorem entities_remarks (p : Projection CodeUnits) :
    p.remarks.filterMap Remark.entity? = p.allEntities := by
  simp [remarks, List.filterMap_map, Function.comp_def, Remark.entity?]

theorem relations_remarks (p : Projection CodeUnits) :
    p.remarks.filterMap Remark.relation? = p.relations := by
  simp [remarks, List.filterMap_map, Function.comp_def, Remark.relation?]

/-- A report says nothing but texts, so all that it says can be stored. -/
theorem stored_exact (limit : Int) (r : Report (Json τ)) :
    ∀ remark ∈ (exact limit r).remarks, remark.Stored := by
  have htexts (texts : List CodeUnits) : ∀ o ∈ texts.map Json.str, Json.Storable o := by
    simp [Json.storable_str]
  intro remark hremark
  simp only [remarks, allEntities, graphEntities, exact, ofReport, List.mem_append,
    List.mem_map] at hremark
  rcases hremark with ⟨e, ⟨a, -, rfl⟩ | ⟨⟨name, os⟩, -, rfl⟩, rfl⟩ | ⟨rel, ⟨edge, -, rfl⟩, rfl⟩
  · exact ⟨rfl, Entity.storable_toJson (Json.storable_str _) (Json.storable_str _)
      (htexts [_, _, _, _, _])⟩
  · exact ⟨rfl, Entity.storable_toJson (Json.storable_str _) (Json.storable_str _) (htexts os)⟩
  · exact ⟨rfl, rfl, rfl, Relation.storable_toJson (Json.storable_str _) (Json.storable_str _)
      (Json.storable_str _) (htexts [_, _, _])⟩

theorem allEntities_ne_nil (limit : Int) (r : Report (Json τ)) :
    (exact limit r).allEntities ≠ [] := by
  simp [allEntities, graphEntities, exact, ofReport]

end Projection

namespace Memory

variable {l : Location} {limit : Int} {w w' : World} {m : Memory} {text : String}

/-! ## One report -/

theorem load_of_readText (hread : w.readText l = .ok text) (hm : ofText text = .ok m) :
    load w l = .ok m := by
  obtain ⟨content, hfind, -⟩ := World.readText_eq_ok_iff.1 hread
  have hhas : w.has l = true := by
    rw [World.has, hfind]
  rw [load, if_pos hhas, hread]
  simp only [hm]

theorem learnt_load (h : load w l = .ok m) : m.Learnt := by
  unfold load at h
  split at h
  · split at h
    · cases h
    · split at h
      · next htext =>
        cases h
        obtain ⟨remarks, hyields, rfl⟩ := exists_yields_of_ofText htext
        exact ⟨remarks, forall_stored hyields, rfl⟩
      · cases h
  · cases h
    exact ⟨[], by simp, rfl⟩

theorem publish_eq_ok_iff {r : Report (Json τ)} :
    publish l limit r w = .ok w' ↔ ∃ m, load w l = .ok m ∧
      w.save l ((Projection.exact limit r).into m).text = .ok w' := by
  unfold publish
  rw [bind_eq_ok_iff]
  refine exists_congr fun m => and_congr_right fun _ => ?_
  cases w.save l ((Projection.exact limit r).into m).text with
  | error e => simp [throw, throwThe, MonadExceptOf.throw]
  | ok w₁ => simp [pure, Except.pure]

/-- Setting what a report says leaves a memory that can be written, and setting it again has no
effect. -/
theorem Learnt.into (h : m.Learnt) (limit : Int) (r : Report (Json τ)) :
    let p := Projection.exact limit r
    (p.into m).Learnt ∧ (p.into m).entities ≠ [] ∧ p.into (p.into m) = p.into m := by
  intro p
  obtain ⟨told, htold, rfl⟩ := h
  have hsaid : ∀ remark ∈ p.remarks, remark.Stored := Projection.stored_exact limit r
  have hall : ∀ remark ∈ told ++ p.remarks, remark.Stored := List.forall_mem_append.2 ⟨htold, hsaid⟩
  rw [Projection.into_ofRemarks, Projection.into_ofRemarks]
  refine ⟨⟨_, hall, rfl⟩, (merges_entities hall).1.ne_nil ?_, ofRemarks_append_self htold hsaid⟩
  rw [List.filterMap_append, Projection.entities_remarks]
  simp [p, Projection.allEntities_ne_nil]

/-- A file that holds the text of a memory, which was learnt and is not empty. -/
structure Holds (w : World) (l : Location) (m : Memory) : Prop where
  text : w.readText l = .ok m.text
  learnt : m.Learnt
  entities : m.entities ≠ []

theorem Holds.load (h : Holds w l m) : load w l = .ok m :=
  load_of_readText h.text (h.learnt.ofText_text h.entities)

/-- A file that was published to holds the memory with what the report says. -/
theorem holds_of_save {r : Report (Json τ)} (hload : Memory.load w l = .ok m)
    (hsave : w.save l ((Projection.exact limit r).into m).text = .ok w') :
    Holds w' l ((Projection.exact limit r).into m) := by
  obtain ⟨hlearnt, hne, -⟩ := (learnt_load hload).into limit r
  exact ⟨World.readText_save hsave (hlearnt.stored.cr_notMem_text hne), hlearnt, hne⟩

/-- A report is published to a file that is there and is read as a memory. -/
theorem exists_publish (named : l.parts ≠ []) (hread : w.readText l = .ok text)
    (hload : Memory.load w l = .ok m) (limit : Int) (r : Report (Json τ)) :
    ∃ w', publish l limit r w = .ok w' ∧ Holds w' l ((Projection.exact limit r).into m) := by
  obtain ⟨content, hfind, -⟩ := World.readText_eq_ok_iff.1 hread
  obtain ⟨w', hsave⟩ :=
    World.exists_save_of_find named hfind ((Projection.exact limit r).into m).text
  exact ⟨w', publish_eq_ok_iff.2 ⟨m, hload, hsave⟩, holds_of_save hload hsave⟩

/-! ## Histories -/

/-- The remarks of a history: the initial ones, then those of each report. -/
def told (limit : Int) (remarks : List Remark) (reports : List (Report (Json τ))) : List Remark :=
  remarks ++ reports.flatMap fun r => (Projection.exact limit r).remarks

/-- The memory after a history. -/
def after (limit : Int) (m : Memory) (reports : List (Report (Json τ))) : Memory :=
  reports.foldl (fun m r => (Projection.exact limit r).into m) m

theorem after_ofRemarks (remarks : List Remark) (reports : List (Report (Json τ))) :
    after limit (ofRemarks remarks) reports = ofRemarks (told limit remarks reports) := by
  induction reports generalizing remarks with
  | nil => rw [told, List.flatMap_nil, List.append_nil]; rfl
  | cons r reports ih =>
    rw [after, List.foldl_cons, Projection.into_ofRemarks]
    refine (ih _).trans ?_
    rw [told, told, List.flatMap_cons, List.append_assoc]

theorem stored_told {remarks : List Remark} (h : ∀ remark ∈ remarks, remark.Stored) (limit : Int)
    (reports : List (Report (Json τ))) : ∀ remark ∈ told limit remarks reports, remark.Stored := by
  refine List.forall_mem_append.2 ⟨h, ?_⟩
  intro remark hremark
  obtain ⟨r, -, hr⟩ := List.mem_flatMap.1 hremark
  exact Projection.stored_exact limit r remark hr

/-- What a history leaves under each key. -/
theorem recalls_told {remarks : List Remark} (h : ∀ remark ∈ remarks, remark.Stored)
    (limit : Int) (reports : List (Report (Json τ))) :
    let m := ofRemarks (told limit remarks reports)
    Recalls Entity.nameValue (remarks.filterMap Remark.entity?)
        (reports.map fun r => (Projection.exact limit r).allEntities) m.entities ∧
      Recalls Relation.endValues (remarks.filterMap Remark.relation?)
        (reports.map fun r => (Projection.exact limit r).relations) m.relations := by
  have hentities := (merges_entities (stored_told h limit reports)).1
  have hrelations := (merges_relations (stored_told h limit reports)).1
  rw [told, List.filterMap_append, List.filterMap_flatMap, List.flatMap_def] at hentities hrelations
  simp only [Projection.entities_remarks] at hentities
  simp only [Projection.relations_remarks] at hrelations
  exact ⟨hentities.recalls, hrelations.recalls⟩

/-- Reports are published one after another to a file that holds a memory. -/
theorem Holds.exists_publish_all (named : l.parts ≠ []) (h : Holds w l m) (limit : Int)
    (reports : List (Report (Json τ))) :
    ∃ w', reports.foldlM (fun w r => publish l limit r w) w = .ok w' ∧
      Holds w' l (after limit m reports) := by
  induction reports generalizing w m with
  | nil => exact ⟨w, rfl, h⟩
  | cons r reports ih =>
    obtain ⟨w₁, hpublish, hholds⟩ := exists_publish named h.text h.load limit r
    obtain ⟨w', hrest, hlast⟩ := ih hholds
    exact ⟨w', by rw [List.foldlM_cons, hpublish]; exact hrest, hlast⟩

/-- Reports are published to a file none of whose lines halts. Afterwards the file has one line for
each entity and then one for each relation, in the order in which their keys first appeared, and
each line says what the last report that has the key said under it, or else what the last of the
initial lines said. Keys that are texts are the same exactly if their code units are. -/
theorem publish_history (l : Location) (limit : Int) (w : World) (text : String)
    (remarks : List Remark) (named : l.parts ≠ []) (initial : w.readText l = .ok text)
    (told : List.Forall₂ Yields (Text.boundaryLines text.toList) remarks)
    (reports : List (Report (Json τ))) :
    ∃ w' m, reports.foldlM (fun w r => publish l limit r w) w = .ok w' ∧ load w' l = .ok m ∧
      (reports ≠ [] → w'.readText l = .ok m.text ∧
        List.Forall₂ Yields (Text.boundaryLines m.text.toList)
          (m.entities.map .entity ++ m.relations.map .relation)) ∧
      Recalls Entity.nameValue (remarks.filterMap Remark.entity?)
        (reports.map fun r => (Projection.exact limit r).allEntities) m.entities ∧
      Recalls Relation.endValues (remarks.filterMap Remark.relation?)
        (reports.map fun r => (Projection.exact limit r).relations) m.relations := by
  have hload := load_of_readText initial (ofText_of_yields told)
  have hkept := recalls_told (forall_stored told) limit reports
  rw [← after_ofRemarks] at hkept
  cases reports with
  | nil => exact ⟨w, _, rfl, hload, fun h => absurd rfl h, hkept⟩
  | cons r reports =>
    obtain ⟨w₁, hpublish, hfirst⟩ := exists_publish named initial hload limit r
    obtain ⟨w', hrest, hlast⟩ := hfirst.exists_publish_all named limit reports
    refine ⟨w', _, ?_, hlast.load, fun _ => ⟨hlast.text, ?_⟩, hkept⟩
    · rw [List.foldlM_cons, hpublish]
      exact hrest
    · exact hlast.learnt.stored.yields hlast.entities

/-- Two notes on one entity, an entity without a text for its type, two whose names are halves of a
pair, and a relation. -/
def diaryItems : Memory where
  entities := [⟨.str "Type_A", .str "note", [.str "first"]⟩, ⟨.str "Kept", .null, [.str "a\nb"]⟩,
    ⟨.str ⟨[0xd800]⟩, .str "note", []⟩, ⟨.str ⟨[0xd801]⟩, .str "note", []⟩,
    ⟨.str "Type_A", .str "note", [.str "second"]⟩]
  relations := [⟨.str "File_a.ts", .str "File_b.ts", .str "imports", []⟩]

/-- An object of another type. -/
def diaryNote : Json CodeUnits := .obj [("type", .str "note"), ("name", .str "Type_A")]

/-- The items, after lines that say nothing. -/
def diaryText : String :=
  String.intercalate "\n" (["", "no json", diaryNote.line] ++
    diaryItems.entities.map (·.toJson.line) ++ diaryItems.relations.map (·.toJson.line)) ++ "\n"

/-- A world with that text in a file. -/
def diary : World where
  tree := .dir [("p", .dir [("memory.jsonl", .file diaryText.toUTF8)])]
  here := ⟨1, ["p"]⟩
  home := ⟨1, []⟩
  now := ⟨0, 0⟩
  settingsFile := none

/-- A report on a type file and an import of it. -/
def typeReport (type importer : String) : Report Json := Report.ofTexts
  { timestamp := "now", project := ⟨"p", "/p", "atlas"⟩, summary := ⟨2, 2, 2, 1, 0, 0⟩
    typeNodes := [⟨"t.ts", "src/t.ts", Category.types, [], [⟨"src/t.ts", type, 1⟩]⟩]
    nodes := [⟨0, "t.ts", "src/t.ts", Category.types, 0, 1⟩, ⟨1, importer, importer, "lib", 1, 0⟩]
    edges := [⟨1, 0, type, "./t", 1⟩], cycles := [], unusedExports := [] }

theorem stored_diaryItems : diaryItems.Stored where
  entities := by
    have htext (t : CodeUnits) : ∀ o ∈ [Json.str t], Json.Storable o := by simp [Json.storable_str]
    have hnote (name : CodeUnits) {os : List (Json CodeUnits)} (hos : ∀ o ∈ os, Json.Storable o) :
        Entity.Stored ⟨.str name, .str "note", os⟩ :=
      ⟨rfl, Entity.storable_toJson (Json.storable_str _) (Json.storable_str _) hos⟩
    simp only [diaryItems, List.forall_mem_cons, List.not_mem_nil, false_imp_iff, implies_true,
      and_true]
    exact ⟨hnote _ (htext _), ⟨rfl, Entity.storable_toJson (Json.storable_str _) Json.storable_null
      (htext _)⟩, hnote _ (by simp), hnote _ (by simp), hnote _ (htext _)⟩
  relations := by
    simp only [diaryItems, List.forall_mem_singleton]
    exact ⟨rfl, rfl, rfl, Relation.storable_toJson (Json.storable_str _) (Json.storable_str _)
      (Json.storable_str _) (by simp)⟩

theorem diary_lines :
    '\r' ∉ diaryText.toList ∧ List.Forall₂ Yields (Text.boundaryLines diaryText.toList)
      ([.nothing, .nothing, .nothing] ++ diaryItems.remarks) := by
  have hnote : Json.Storable diaryNote :=
    Json.storable_obj (by simp) ⟨Json.storable_str _, Json.storable_str _⟩
  have hlines : diaryText.toList =
      ([[], "no json".toList, diaryNote.line.toList] ++ diaryItems.lines).flatMap (· ++ ['\n']) := by
    rw [diaryText, Text.toList_intercalate (by simp)]
    simp only [List.map_append, List.map_cons, List.map_nil, List.map_map, lines,
      String.toList_empty, List.append_assoc, Function.comp_def]
  have hplain : ∀ line ∈ [[], "no json".toList, diaryNote.line.toList] ++ diaryItems.lines,
      ∀ c ∈ line, Text.isLineBoundary c = false := by
    refine List.forall_mem_append.2 ⟨?_, stored_diaryItems.boundary_notMem_lines⟩
    simp only [List.forall_mem_cons]
    exact ⟨by simp, Json.forall_mem_of_all (by decide), boundary_notMem_line hnote, by simp⟩
  rw [hlines, Text.boundaryLines_flatMap hplain]
  refine ⟨Text.cr_notMem_flatMap hplain, List.rel_append ?_ stored_diaryItems.yields_lines⟩
  exact .cons (.blank rfl) (.cons (.noJson rfl)
    (.cons (.other (parse_line hnote) (by simp) (by simp)) .nil))

theorem diary_read : diary.readText ⟨0, ["memory.jsonl"]⟩ = .ok diaryText :=
  World.readText_eq_ok_iff.2 ⟨diaryText.toUTF8, rfl, FileTree.decode_toUTF8 diary_lines.1⟩

/-- Three reports: the last note of the file is replaced in its place, and what no report speaks of
stays. The names that are halves of a pair are two. -/
theorem diary_history :
    let name (t : CodeUnits) : Option (Scalar CodeUnits) := some (.text t)
    ∃ w' m, [typeReport "B" "a.ts", typeReport "A" "a.ts", typeReport "B" "c.ts"].foldlM
        (fun w r => publish ⟨0, ["memory.jsonl"]⟩ 1 r w) diary = .ok w' ∧
      w'.readText ⟨0, ["memory.jsonl"]⟩ = .ok (Memory.text m) ∧
      m.entities.map Entity.nameValue = [name "Type_A", name "Kept", name ⟨[0xd800]⟩,
        name ⟨[0xd801]⟩, name "Type_B", name "Project_Dependency_Graph"] ∧
      m.relations.map Relation.endValues =
        [(name "File_a.ts", name "File_b.ts", name "imports"),
          (name "File_a.ts", name "File_t.ts", name "imports"),
          (name "File_c.ts", name "File_t.ts", name "imports")] := by
  intro name
  obtain ⟨w', m, hpublish, -, htext, hentities, hrelations⟩ :=
    publish_history ⟨0, ["memory.jsonl"]⟩ 1 diary diaryText _ (by decide) diary_read diary_lines.2
      [typeReport "B" "a.ts", typeReport "A" "a.ts", typeReport "B" "c.ts"]
  refine ⟨w', m, hpublish, (htext (by simp)).1, ?_, ?_⟩
  · rw [hentities.keys]
    decide +kernel
  · rw [hrelations.keys]
    decide +kernel

end Memory

end ImportAtlas
