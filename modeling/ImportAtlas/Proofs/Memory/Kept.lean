import ImportAtlas.Proofs.Json.Printable
import ImportAtlas.Proofs.Json.Scalar
import ImportAtlas.Proofs.Memory.Lines
import ImportAtlas.Proofs.Memory.Merged

/-!
# Memories that a file keeps

Whatever a memory file says, each item that is read from it is known by scalars and can be stored,
and items are told apart by the values of those scalars. What remarks of such items leave (`Learnt`)
is the last item told of under each key. It is written as one line for each item, and the lines
yield the items, so the memory is read back as it was.
-/

namespace ImportAtlas

open Json

/-! ## Items -/

/-- The value of an entity's name. -/
def Entity.nameValue (e : Entity CodeUnits) : Option (Scalar CodeUnits) := e.name.scalar?

/-- The values of a relation's ends and kind. -/
def Relation.endValues (r : Relation CodeUnits) :
    Option (Scalar CodeUnits) × Option (Scalar CodeUnits) × Option (Scalar CodeUnits) :=
  (r.source.scalar?, r.target.scalar?, r.kind.scalar?)

/-- An entity that is known by a scalar and can be stored. -/
structure Entity.Stored (e : Entity CodeUnits) : Prop where
  name : e.name.isKey = true
  storable : Storable e.toJson

/-- A relation that is known by scalars and can be stored. -/
structure Relation.Stored (r : Relation CodeUnits) : Prop where
  source : r.source.isKey = true
  target : r.target.isKey = true
  kind : r.kind.isKey = true
  storable : Storable r.toJson

/-- What a line says can be stored. -/
def Remark.Stored : Remark → Prop
  | .nothing => True
  | .entity e => e.Stored
  | .relation r => r.Stored

theorem Entity.sameKey_eq (a b : Entity CodeUnits) (ha : a.Stored) (hb : b.Stored) :
    a.sameKey b = decide (a.nameValue = b.nameValue) :=
  same_eq ha.name hb.name

theorem Relation.sameKey_eq (a b : Relation CodeUnits) (ha : a.Stored) (hb : b.Stored) :
    a.sameKey b = decide (a.endValues = b.endValues) := by
  unfold sameKey
  rw [same_eq ha.source hb.source, same_eq ha.target hb.target, same_eq ha.kind hb.kind,
    Bool.eq_iff_iff]
  simp [endValues, and_assoc]

theorem Entity.storable_toJson {e : Entity CodeUnits} (hname : Storable e.name)
    (hkind : Storable e.kind) (hos : ∀ o ∈ e.observations, Storable o) : Storable e.toJson :=
  storable_obj (by simp) ⟨storable_str _, hname, hkind, storable_arr_iff.2 hos⟩

theorem Relation.storable_toJson {r : Relation CodeUnits} (hsource : Storable r.source)
    (htarget : Storable r.target) (hkind : Storable r.kind)
    (hos : ∀ o ∈ r.observations, Storable o) : Storable r.toJson :=
  storable_obj (by simp) ⟨storable_str _, hsource, htarget, hkind, storable_arr_iff.2 hos⟩

section Given

variable {ms : List (CodeUnits × Json CodeUnits)}

theorem storable_getD {fallback : Json CodeUnits} (h : Storable (.obj ms))
    (hfallback : Storable fallback) (key : CodeUnits) : Storable ((ms.lookup key).getD fallback) :=
  storable_fieldD h hfallback rfl

theorem Entity.Given.stored {e : Entity CodeUnits} (h : e.Given ms) (hms : Storable (.obj ms)) :
    e.Stored := by
  refine ⟨h.key, storable_toJson (storable_of_lookup hms h.name) ?_ ?_⟩
  · rw [h.kind]
    exact storable_getD hms (storable_str _) _
  · exact storable_elements (storable_getD hms storable_arr_nil _) h.observations

theorem Relation.Given.stored {r : Relation CodeUnits} (h : r.Given ms) (hms : Storable (.obj ms)) :
    r.Stored := by
  refine ⟨h.sourceKey, h.targetKey, h.kindKey, storable_toJson (storable_of_lookup hms h.source)
    (storable_of_lookup hms h.target) ?_ ?_⟩
  · rw [h.kind]
    exact storable_getD hms (storable_str _) _
  · exact storable_elements (storable_getD hms storable_arr_nil _) h.observations

end Given

/-! ## Lines -/

theorem Yields.stored {line : List Char} {remark : Remark} (h : Yields line remark) :
    remark.Stored := by
  cases h with
  | blank | noJson | other => trivial
  | entity h type given => exact given.stored (storable_iff_exists_text.2 ⟨_, h⟩)
  | relation h type given => exact given.stored (storable_iff_exists_text.2 ⟨_, h⟩)

theorem forall_stored {lines : List (List Char)} {remarks : List Remark}
    (h : List.Forall₂ Yields lines remarks) : ∀ remark ∈ remarks, remark.Stored := by
  induction h with
  | nil => simp
  | cons hyields _ ih => exact List.forall_mem_cons.2 ⟨hyields.stored, ih⟩

theorem blank_oneLine : Style.oneLine.Blank where
  breakAt := by simp [Style.oneLine]
  afterComma := forall_mem_of_all (by decide)

theorem parse_line {v : Json CodeUnits} (h : Storable v) :
    parse (String.ofList v.line.toList) = .ok v := by
  rw [String.ofList_toList]
  exact parse_render blank_oneLine h.1 h.2 0

/-- The line of an entity says the entity. -/
theorem Entity.Stored.yields {e : Entity CodeUnits} (h : e.Stored) :
    Yields e.toJson.line.toList (.entity e) :=
  .entity (parse_line h.storable) rfl ⟨rfl, h.name, rfl, rfl⟩

/-- The line of a relation says the relation. -/
theorem Relation.Stored.yields {r : Relation CodeUnits} (h : r.Stored) :
    Yields r.toJson.line.toList (.relation r) :=
  .relation (parse_line h.storable) rfl ⟨rfl, rfl, rfl, h.source, h.target, h.kind, rfl⟩

theorem boundary_notMem_line {v : Json CodeUnits} (h : Storable v) :
    ∀ c ∈ v.line.toList, Text.isLineBoundary c = false := by
  have hprint : ∀ c, Printable c → Text.isLineBoundary c = false := by
    rintro c ⟨hlow, hhigh⟩
    simp only [Text.isLineBoundary, Bool.or_eq_false_iff, Bool.and_eq_false_imp, decide_eq_true_eq,
      decide_eq_false_iff_not, beq_eq_false_iff_ne]
    omega
  exact h.1.forall_mem_render hprint (by simp [Style.oneLine])
    (forall_mem_of_all (by decide)) 0

namespace Memory

/-! ## What remarks leave -/

variable {m : Memory} {told : List Remark}

theorem entities_ofRemarks (remarks : List Remark) :
    (ofRemarks remarks).entities =
      (remarks.filterMap Remark.entity?).foldl (fun es e => setBy Entity.sameKey e es) [] := by
  have hfold (m : Memory) : (remarks.foldl set m).entities =
      (remarks.filterMap Remark.entity?).foldl (fun es e => setBy Entity.sameKey e es)
        m.entities := by
    induction remarks generalizing m with
    | nil => rfl
    | cons remark remarks ih =>
      rw [List.foldl_cons, ih]
      cases remark <;> rfl
  exact hfold empty

theorem relations_ofRemarks (remarks : List Remark) :
    (ofRemarks remarks).relations =
      (remarks.filterMap Remark.relation?).foldl (fun rs r => setBy Relation.sameKey r rs) [] := by
  have hfold (m : Memory) : (remarks.foldl set m).relations =
      (remarks.filterMap Remark.relation?).foldl (fun rs r => setBy Relation.sameKey r rs)
        m.relations := by
    induction remarks generalizing m with
    | nil => rfl
    | cons remark remarks ih =>
      rw [List.foldl_cons, ih]
      cases remark <;> rfl
  exact hfold empty

theorem forall_entity? {P : Remark → Prop} (h : ∀ remark ∈ told, P remark) :
    ∀ e ∈ told.filterMap Remark.entity?, P (.entity e) := by
  intro e he
  obtain ⟨remark, hmem, heq⟩ := List.mem_filterMap.1 he
  cases remark <;> cases heq
  exact h _ hmem

theorem forall_relation? {P : Remark → Prop} (h : ∀ remark ∈ told, P remark) :
    ∀ r ∈ told.filterMap Remark.relation?, P (.relation r) := by
  intro r hr
  obtain ⟨remark, hmem, heq⟩ := List.mem_filterMap.1 hr
  cases remark <;> cases heq
  exact h _ hmem

/-- Remarks leave the last entity told of under each name, and it can be stored. -/
theorem merges_entities (h : ∀ remark ∈ told, remark.Stored) :
    Merges Entity.nameValue (told.filterMap Remark.entity?) (ofRemarks told).entities ∧
      ∀ e ∈ (ofRemarks told).entities, e.Stored := by
  rw [entities_ofRemarks]
  exact merges_foldl Entity.sameKey_eq merges_nil (by simp) (forall_entity? h)

/-- Remarks leave the last relation told of under each key, and it can be stored. -/
theorem merges_relations (h : ∀ remark ∈ told, remark.Stored) :
    Merges Relation.endValues (told.filterMap Remark.relation?) (ofRemarks told).relations ∧
      ∀ r ∈ (ofRemarks told).relations, r.Stored := by
  rw [relations_ofRemarks]
  exact merges_foldl Relation.sameKey_eq merges_nil (by simp) (forall_relation? h)

/-- Remarks that are made twice leave what they leave when made once. -/
theorem ofRemarks_append_self {xs ys : List Remark} (hxs : ∀ remark ∈ xs, remark.Stored)
    (hys : ∀ remark ∈ ys, remark.Stored) : ofRemarks (xs ++ ys ++ ys) = ofRemarks (xs ++ ys) := by
  have honce : ∀ remark ∈ xs ++ ys, remark.Stored := List.forall_mem_append.2 ⟨hxs, hys⟩
  have htwice : ∀ remark ∈ xs ++ ys ++ ys, remark.Stored := List.forall_mem_append.2 ⟨honce, hys⟩
  have hentities := (merges_entities honce).1
  have hentities' := (merges_entities htwice).1
  have hrelations := (merges_relations honce).1
  have hrelations' := (merges_relations htwice).1
  simp only [List.filterMap_append] at hentities hentities' hrelations hrelations'
  show Memory.mk (ofRemarks (xs ++ ys ++ ys)).entities (ofRemarks (xs ++ ys ++ ys)).relations = _
  rw [hentities.eq_of_append_self hentities', hrelations.eq_of_append_self hrelations']

/-- A memory that was read is what remarks of items that can be stored leave. -/
def Learnt (m : Memory) : Prop :=
  ∃ remarks : List Remark, (∀ remark ∈ remarks, remark.Stored) ∧ m = ofRemarks remarks

/-! ## Writing -/

/-- What a memory says, in the order in which it is written. -/
def remarks (m : Memory) : List Remark := m.entities.map .entity ++ m.relations.map .relation

/-- The lines of a memory: one for each entity, then one for each relation. -/
def lines (m : Memory) : List (List Char) :=
  m.entities.map (·.toJson.line.toList) ++ m.relations.map (·.toJson.line.toList)

/-- What a memory says can be stored. -/
structure Stored (m : Memory) : Prop where
  entities : ∀ e ∈ m.entities, e.Stored
  relations : ∀ r ∈ m.relations, r.Stored

theorem Stored.yields_lines (h : m.Stored) : List.Forall₂ Yields m.lines m.remarks := by
  refine List.rel_append ?_ ?_
  · exact List.forall₂_map_left_iff.2 (List.forall₂_map_right_iff.2
      (List.forall₂_same.2 fun e he => (h.entities e he).yields))
  · exact List.forall₂_map_left_iff.2 (List.forall₂_map_right_iff.2
      (List.forall₂_same.2 fun r hr => (h.relations r hr).yields))

theorem Stored.boundary_notMem_lines (h : m.Stored) :
    ∀ line ∈ m.lines, ∀ c ∈ line, Text.isLineBoundary c = false := by
  simp only [lines, List.forall_mem_append, List.forall_mem_map]
  exact ⟨fun e he => boundary_notMem_line (h.entities e he).storable,
    fun r hr => boundary_notMem_line (h.relations r hr).storable⟩

theorem toList_text (hne : m.entities ≠ []) : m.text.toList = m.lines.flatMap (· ++ ['\n']) := by
  rw [text, Text.toList_intercalate (by simp [hne]), List.map_append, List.map_map, List.map_map]
  rfl

/-- The lines of a memory that is not empty say its items, one line for each. -/
theorem Stored.yields (h : m.Stored) (hne : m.entities ≠ []) :
    List.Forall₂ Yields (Text.boundaryLines m.text.toList) m.remarks := by
  rw [toList_text hne, Text.boundaryLines_flatMap h.boundary_notMem_lines]
  exact h.yields_lines

theorem Stored.cr_notMem_text (h : m.Stored) (hne : m.entities ≠ []) : '\r' ∉ m.text.toList := by
  rw [toList_text hne]
  exact Text.cr_notMem_flatMap h.boundary_notMem_lines

theorem Learnt.stored (h : m.Learnt) : m.Stored := by
  obtain ⟨remarks, hremarks, rfl⟩ := h
  exact ⟨(merges_entities hremarks).2, (merges_relations hremarks).2⟩

/-- The remarks of a memory leave the memory. -/
theorem Learnt.ofRemarks_remarks (h : m.Learnt) : ofRemarks m.remarks = m := by
  obtain ⟨hes, hrs⟩ := h.stored
  obtain ⟨told, htold, rfl⟩ := h
  generalize hm : ofRemarks told = m at hes hrs ⊢
  have hnames : (m.entities.map Entity.nameValue).Nodup := hm ▸ (merges_entities htold).1.nodup
  have hends : (m.relations.map Relation.endValues).Nodup := hm ▸ (merges_relations htold).1.nodup
  have hentities : m.remarks.filterMap Remark.entity? = m.entities := by
    simp [remarks, List.filterMap_map, Function.comp_def, Remark.entity?]
  have hrelations : m.remarks.filterMap Remark.relation? = m.relations := by
    simp [remarks, List.filterMap_map, Function.comp_def, Remark.relation?]
  show Memory.mk (ofRemarks m.remarks).entities (ofRemarks m.remarks).relations = m
  rw [entities_ofRemarks, hentities,
    foldl_setBy_of_nodup Entity.sameKey_eq [] m.entities hes hnames, relations_ofRemarks,
    hrelations, foldl_setBy_of_nodup Relation.sameKey_eq [] m.relations hrs hends]
  rfl

/-- A memory is read back from its text. -/
theorem Learnt.ofText_text (h : m.Learnt) (hne : m.entities ≠ []) : ofText m.text = .ok m := by
  rw [ofText_of_yields (h.stored.yields hne), h.ofRemarks_remarks]

end Memory

end ImportAtlas
