import ImportAtlas.Memory.Sink
import ImportAtlas.Proofs.Json.Access
import ImportAtlas.Proofs.Json.Storable
import ImportAtlas.Proofs.Text

/-!
# The lines of a memory file

A line of a memory file yields something or it halts the reading. Blank lines, lines that are no
JSON and objects of another type yield nothing and are passed over. A line halts if it holds an
integer of too many digits, if it is JSON and no object, or if it is an entity or a relation that
lacks a key, has a list or an object for one, or has observations that cannot be run through.
Reading a file sets what its lines yield, one after another, and fails with the first line that
halts.
-/

namespace ImportAtlas

open Json

/-- What a line of a memory can say. -/
inductive Remark where
  | nothing
  | entity (e : Entity CodeUnits)
  | relation (r : Relation CodeUnits)

def Remark.entity? : Remark → Option (Entity CodeUnits)
  | .entity e => some e
  | _ => none

def Remark.relation? : Remark → Option (Relation CodeUnits)
  | .relation r => some r
  | _ => none

/-! ## Items -/

/-- The members of an object give an entity: it has a name that is a scalar, and observations, if
any, that can be run through. -/
structure Entity.Given (ms : List (CodeUnits × Json CodeUnits)) (e : Entity CodeUnits) : Prop where
  name : ms.lookup ("name" : CodeUnits) = some e.name
  key : e.name.isKey = true
  kind : e.kind = (ms.lookup ("entityType" : CodeUnits)).getD (.str "")
  observations :
    ((ms.lookup ("observations" : CodeUnits)).getD (.arr [])).elements = .ok e.observations

/-- The members of an object give a relation: it has two ends, which are scalars as its kind is, and
observations, if any, that can be run through. -/
structure Relation.Given (ms : List (CodeUnits × Json CodeUnits)) (r : Relation CodeUnits) :
    Prop where
  source : ms.lookup ("from" : CodeUnits) = some r.source
  target : ms.lookup ("to" : CodeUnits) = some r.target
  kind : r.kind = (ms.lookup ("relationType" : CodeUnits)).getD (.str "")
  sourceKey : r.source.isKey = true
  targetKey : r.target.isKey = true
  kindKey : r.kind.isKey = true
  observations :
    ((ms.lookup ("observations" : CodeUnits)).getD (.arr [])).elements = .ok r.observations

/-- Why the members of an object give no entity. -/
inductive Entity.Spoilt (ms : List (CodeUnits × Json CodeUnits)) : Fault → Prop
  | nameless (h : ms.lookup ("name" : CodeUnits) = none) : Spoilt ms (.missingKey "name")
  | wrongKind {name : Json CodeUnits} (named : ms.lookup ("name" : CodeUnits) = some name)
      (h : name.isKey = false ∨
        ∀ os, ((ms.lookup ("observations" : CodeUnits)).getD (.arr [])).elements ≠ .ok os) :
      Spoilt ms .wrongKind

/-- Why the members of an object give no relation. -/
inductive Relation.Spoilt (ms : List (CodeUnits × Json CodeUnits)) : Fault → Prop
  | noSource (h : ms.lookup ("from" : CodeUnits) = none) : Spoilt ms (.missingKey "from")
  | noTarget {source : Json CodeUnits} (starts : ms.lookup ("from" : CodeUnits) = some source)
      (h : ms.lookup ("to" : CodeUnits) = none) : Spoilt ms (.missingKey "to")
  | wrongKind {source target : Json CodeUnits}
      (starts : ms.lookup ("from" : CodeUnits) = some source)
      (ends : ms.lookup ("to" : CodeUnits) = some target)
      (h : source.isKey = false ∨ target.isKey = false ∨
        ((ms.lookup ("relationType" : CodeUnits)).getD (.str "")).isKey = false ∨
        ∀ os, ((ms.lookup ("observations" : CodeUnits)).getD (.arr [])).elements ≠ .ok os) :
      Spoilt ms .wrongKind

namespace Memory

variable {ms : List (CodeUnits × Json CodeUnits)} {e : Entity CodeUnits} {r : Relation CodeUnits}
  {f : Fault}

/-- A key that is missing is named in the fault. -/
theorem field_of_none {key : String} (h : ms.lookup (key : CodeUnits) = none) :
    (Json.obj ms).field (key : CodeUnits) = .error (.missingKey key) := by
  have hshown : Wording.shown (key : CodeUnits) = key := LawfulWording.ofUnits_units key
  simp only [field, h, hshown]

theorem entityOf_of_given (h : e.Given ms) : entityOf (.obj ms) = .ok e := by
  obtain ⟨name, kind, os⟩ := e
  obtain ⟨hname, hkey, rfl, hos⟩ := h
  have htoKey : name.toKey = .ok name := toKey_eq_ok_iff.2 ⟨hkey, rfl⟩
  simp only [entityOf, observations, field, fieldD, hname, hos, htoKey, bind, Except.bind, pure,
    Except.pure]

theorem relationOf_of_given (h : r.Given ms) : relationOf (.obj ms) = .ok r := by
  obtain ⟨source, target, kind, os⟩ := r
  obtain ⟨hsource, htarget, rfl, hsourceKey, htargetKey, hkindKey, hos⟩ := h
  simp only [relationOf, observations, field, fieldD, hsource, htarget, hos,
    toKey_eq_ok_iff.2 ⟨hsourceKey, rfl⟩, toKey_eq_ok_iff.2 ⟨htargetKey, rfl⟩,
    toKey_eq_ok_iff.2 ⟨hkindKey, rfl⟩, bind, Except.bind, pure, Except.pure]

theorem entityOf_of_spoilt (h : Entity.Spoilt ms f) : entityOf (.obj ms) = .error f := by
  cases h with
  | nameless h => simp only [entityOf, field_of_none h, bind, Except.bind]
  | @wrongKind name named h =>
    simp only [entityOf, observations, field, fieldD, named, bind, Except.bind]
    rcases elements_cases ((ms.lookup ("observations" : CodeUnits)).getD (.arr []))
      with ⟨os, hos⟩ | hos
    · have hkey : name.isKey = false := h.resolve_right fun hnone => hnone os hos
      rcases toKey_cases name with ⟨hkey', -⟩ | ⟨-, htoKey⟩
      · rw [hkey] at hkey'
        cases hkey'
      · rw [hos, htoKey]
    · rw [hos]

theorem relationOf_of_spoilt (h : Relation.Spoilt ms f) : relationOf (.obj ms) = .error f := by
  cases h with
  | noSource h => simp only [relationOf, field_of_none h, bind, Except.bind]
  | noTarget starts h =>
    have hsource := field_eq_ok_iff.2 ⟨ms, rfl, starts⟩
    simp only [relationOf, hsource, field_of_none h, bind, Except.bind]
  | @wrongKind source target starts ends h =>
    simp only [relationOf, observations, field, fieldD, starts, ends, bind, Except.bind]
    generalize (ms.lookup ("relationType" : CodeUnits)).getD (.str "") = kind at h ⊢
    generalize (ms.lookup ("observations" : CodeUnits)).getD (.arr []) = observed at h ⊢
    rcases elements_cases observed with ⟨os, hos⟩ | hos
    · rcases toKey_cases source with ⟨hsource, hsource'⟩ | ⟨hsource, hsource'⟩
      · rcases toKey_cases target with ⟨htarget, htarget'⟩ | ⟨htarget, htarget'⟩
        · rcases toKey_cases kind with ⟨hkind, hkind'⟩ | ⟨hkind, hkind'⟩
          · simp [hsource, htarget, hkind, hos] at h
          · simp only [hos, hsource', htarget', hkind']
        · simp only [hos, hsource', htarget']
      · simp only [hos, hsource']
    · simp only [hos]

theorem given_or_spoilt_entity (ms : List (CodeUnits × Json CodeUnits)) :
    (∃ e : Entity CodeUnits, e.Given ms) ∨ ∃ f, Entity.Spoilt ms f := by
  cases hname : ms.lookup ("name" : CodeUnits) with
  | none => exact .inr ⟨_, .nameless hname⟩
  | some name =>
    rcases elements_cases ((ms.lookup ("observations" : CodeUnits)).getD (.arr []))
      with ⟨os, hos⟩ | hos
    · cases hkey : name.isKey with
      | true => exact .inl ⟨⟨name, _, os⟩, hname, hkey, rfl, hos⟩
      | false => exact .inr ⟨_, .wrongKind hname (.inl hkey)⟩
    · exact .inr ⟨_, .wrongKind hname (.inr fun os h => by rw [hos] at h; cases h)⟩

theorem given_or_spoilt_relation (ms : List (CodeUnits × Json CodeUnits)) :
    (∃ r : Relation CodeUnits, r.Given ms) ∨ ∃ f, Relation.Spoilt ms f := by
  cases hsource : ms.lookup ("from" : CodeUnits) with
  | none => exact .inr ⟨_, .noSource hsource⟩
  | some source =>
    cases htarget : ms.lookup ("to" : CodeUnits) with
    | none => exact .inr ⟨_, .noTarget hsource htarget⟩
    | some target =>
      by_cases h : source.isKey = false ∨ target.isKey = false ∨
          ((ms.lookup ("relationType" : CodeUnits)).getD (.str "")).isKey = false ∨
          ∀ os, ((ms.lookup ("observations" : CodeUnits)).getD (.arr [])).elements ≠ .ok os
      · exact .inr ⟨_, .wrongKind hsource htarget h⟩
      · simp only [not_or, Bool.not_eq_false, not_forall, not_not] at h
        obtain ⟨hsourceKey, htargetKey, hkindKey, os, hos⟩ := h
        exact .inl ⟨⟨source, target, _, os⟩, hsource, htarget, rfl, hsourceKey, htargetKey,
          hkindKey, hos⟩

end Memory

/-! ## Lines -/

/-- What a line that can be read yields. Lines that are blank or no JSON yield nothing, and neither
do objects of another type. -/
inductive Yields (line : List Char) : Remark → Prop
  | blank (h : (Text.trim line).isEmpty = true) : Yields line .nothing
  | noJson (h : parse (τ := CodeUnits) (String.ofList line) = .error .malformed) :
      Yields line .nothing
  | other {ms : List (CodeUnits × Json CodeUnits)} (h : parse (String.ofList line) = .ok (.obj ms))
      (noEntity : ms.lookup ("type" : CodeUnits) ≠ some (.str "entity"))
      (noRelation : ms.lookup ("type" : CodeUnits) ≠ some (.str "relation")) : Yields line .nothing
  | entity {ms : List (CodeUnits × Json CodeUnits)} {e : Entity CodeUnits}
      (h : parse (String.ofList line) = .ok (.obj ms))
      (type : ms.lookup ("type" : CodeUnits) = some (.str "entity")) (given : e.Given ms) :
      Yields line (.entity e)
  | relation {ms : List (CodeUnits × Json CodeUnits)} {r : Relation CodeUnits}
      (h : parse (String.ofList line) = .ok (.obj ms))
      (type : ms.lookup ("type" : CodeUnits) = some (.str "relation")) (given : r.Given ms) :
      Yields line (.relation r)

/-- Why a line cannot be passed over. -/
inductive Halts (line : List Char) : Fault → Prop
  | longNumeral (visible : (Text.trim line).isEmpty = false)
      (h : parse (τ := CodeUnits) (String.ofList line) = .error .tooManyDigits) :
      Halts line .badValue
  | noObject {v : Json CodeUnits} (visible : (Text.trim line).isEmpty = false)
      (h : parse (String.ofList line) = .ok v) (other : ∀ ms, v ≠ .obj ms) : Halts line .noOperation
  | entity {ms : List (CodeUnits × Json CodeUnits)} {f : Fault}
      (h : parse (String.ofList line) = .ok (.obj ms))
      (type : ms.lookup ("type" : CodeUnits) = some (.str "entity")) (spoilt : Entity.Spoilt ms f) :
      Halts line f
  | relation {ms : List (CodeUnits × Json CodeUnits)} {f : Fault}
      (h : parse (String.ofList line) = .ok (.obj ms))
      (type : ms.lookup ("type" : CodeUnits) = some (.str "relation"))
      (spoilt : Relation.Spoilt ms f) : Halts line f

/-- The reading of some lines halts: all lines before the one to blame yield something. -/
inductive HaltsAmong : List (List Char) → Fault → Prop
  | here {line : List Char} {f : Fault} (h : Halts line f) (rest : List (List Char)) :
      HaltsAmong (line :: rest) f
  | later {line : List Char} {remark : Remark} {rest : List (List Char)} {f : Fault}
      (h : Yields line remark) (halts : HaltsAmong rest f) : HaltsAmong (line :: rest) f

theorem Json.getD_same_str_iff {v : Option (Json CodeUnits)} {t : CodeUnits} :
    (v.getD .null).same (.str t) = true ↔ v = some (.str t) := by
  cases v with
  | none => simp [same_str_iff]
  | some v => simp [same_str_iff]

namespace Memory

variable {ms : List (CodeUnits × Json CodeUnits)} {line : List Char} {remark : Remark} {f : Fault}

/-- Sets what a line says. -/
def set (m : Memory) : Remark → Memory
  | .nothing => m
  | .entity e => m.setEntity e
  | .relation r => m.setRelation r

/-- The memory that remarks leave, one after another. -/
def ofRemarks (remarks : List Remark) : Memory := remarks.foldl set empty

theorem addLine_of_parse (m : Memory) (h : parse (String.ofList line) = .ok (.obj ms)) :
    addLine m line = addItem m (.obj ms) := by
  have hbrace : '\x7b' ∈ line := by simpa using brace_mem_of_parse h
  have hblank : (Text.trim line).isEmpty = false :=
    List.isEmpty_eq_false_iff_exists_mem.2 ⟨_, Text.mem_trim hbrace (by decide)⟩
  rw [addLine, hblank, h]
  rfl

theorem addItem_of_entity (m : Memory)
    (type : ms.lookup ("type" : CodeUnits) = some (.str "entity")) :
    addItem m (.obj ms) = (entityOf (.obj ms)).map m.setEntity := by
  have htype : ((ms.lookup ("type" : CodeUnits)).getD .null).same (.str "entity") = true :=
    getD_same_str_iff.2 type
  simp only [addItem, fieldD, htype, bind, Except.bind, if_true]
  cases entityOf (.obj ms) <;> rfl

theorem addItem_of_relation (m : Memory)
    (type : ms.lookup ("type" : CodeUnits) = some (.str "relation")) :
    addItem m (.obj ms) = (relationOf (.obj ms)).map m.setRelation := by
  have htype : ((ms.lookup ("type" : CodeUnits)).getD .null).same (.str "relation") = true :=
    getD_same_str_iff.2 type
  have hentity : ¬ ((ms.lookup ("type" : CodeUnits)).getD .null).same (.str "entity") = true := by
    rw [getD_same_str_iff, type]
    simp
  simp only [addItem, fieldD, htype, hentity, bind, Except.bind, if_true]
  cases relationOf (.obj ms) <;> rfl

theorem addItem_of_other (m : Memory)
    (noEntity : ms.lookup ("type" : CodeUnits) ≠ some (.str "entity"))
    (noRelation : ms.lookup ("type" : CodeUnits) ≠ some (.str "relation")) :
    addItem m (.obj ms) = .ok m := by
  simp only [addItem, fieldD, bind, Except.bind, pure, Except.pure, getD_same_str_iff, noEntity,
    noRelation, if_false]

/-- Reading a line sets what it yields. -/
theorem addLine_of_yields (h : Yields line remark) (m : Memory) :
    addLine m line = .ok (m.set remark) := by
  cases h with
  | blank h =>
    rw [addLine, if_pos h]
    rfl
  | noJson h =>
    unfold addLine
    rw [h]
    split <;> rfl
  | other h noEntity noRelation =>
    rw [addLine_of_parse m h, addItem_of_other m noEntity noRelation]
    rfl
  | entity h type given =>
    rw [addLine_of_parse m h, addItem_of_entity m type, entityOf_of_given given]
    rfl
  | relation h type given =>
    rw [addLine_of_parse m h, addItem_of_relation m type, relationOf_of_given given]
    rfl

/-- A line that halts does so whatever was read before it. -/
theorem addLine_of_halts (h : Halts line f) (m : Memory) : addLine m line = .error f := by
  cases h with
  | longNumeral visible h =>
    unfold addLine
    rw [visible, h]
    rfl
  | @noObject v visible h other =>
    unfold addLine
    rw [visible, h]
    cases v with
    | obj ms => exact absurd rfl (other ms)
    | _ => rfl
  | entity h type spoilt =>
    rw [addLine_of_parse m h, addItem_of_entity m type, entityOf_of_spoilt spoilt]
    rfl
  | relation h type spoilt =>
    rw [addLine_of_parse m h, addItem_of_relation m type, relationOf_of_spoilt spoilt]
    rfl

/-- Every line yields something or halts. -/
theorem yields_or_halts (line : List Char) :
    (∃ remark, Yields line remark) ∨ ∃ f, Halts line f := by
  cases visible : (Text.trim line).isEmpty with
  | true => exact .inl ⟨_, .blank visible⟩
  | false =>
    cases hparse : parse (τ := CodeUnits) (String.ofList line) with
    | error e =>
      cases e with
      | malformed => exact .inl ⟨_, .noJson hparse⟩
      | tooManyDigits => exact .inr ⟨_, .longNumeral visible hparse⟩
    | ok v =>
      by_cases hobj : ∃ ms, v = .obj ms
      · obtain ⟨ms, rfl⟩ := hobj
        by_cases hentity : ms.lookup ("type" : CodeUnits) = some (.str "entity")
        · rcases given_or_spoilt_entity ms with ⟨e, given⟩ | ⟨f, spoilt⟩
          · exact .inl ⟨_, .entity hparse hentity given⟩
          · exact .inr ⟨f, .entity hparse hentity spoilt⟩
        · by_cases hrelation : ms.lookup ("type" : CodeUnits) = some (.str "relation")
          · rcases given_or_spoilt_relation ms with ⟨r, given⟩ | ⟨f, spoilt⟩
            · exact .inl ⟨_, .relation hparse hrelation given⟩
            · exact .inr ⟨f, .relation hparse hrelation spoilt⟩
          · exact .inl ⟨_, .other hparse hentity hrelation⟩
      · exact .inr ⟨_, .noObject visible hparse fun ms hv => hobj ⟨ms, hv⟩⟩

theorem not_halts_of_yields (h : Yields line remark) (f : Fault) : ¬ Halts line f := by
  intro hhalts
  have hok := addLine_of_yields h empty
  rw [addLine_of_halts hhalts] at hok
  cases hok

/-! ## Files -/

variable {text : String} {lines : List (List Char)} {remarks : List Remark}

theorem yields_all_or_halts (lines : List (List Char)) :
    (∃ remarks, List.Forall₂ Yields lines remarks) ∨ ∃ f, HaltsAmong lines f := by
  induction lines with
  | nil => exact .inl ⟨[], .nil⟩
  | cons line lines ih =>
    rcases yields_or_halts line with ⟨remark, hyields⟩ | ⟨f, hhalts⟩
    · rcases ih with ⟨remarks, hrest⟩ | ⟨f, hrest⟩
      · exact .inl ⟨remark :: remarks, .cons hyields hrest⟩
      · exact .inr ⟨f, .later hyields hrest⟩
    · exact .inr ⟨f, .here hhalts lines⟩

theorem not_halts_of_yields_all (h : List.Forall₂ Yields lines remarks) :
    ∀ line ∈ lines, ∀ f, ¬ Halts line f := by
  induction h with
  | nil => simp
  | cons hyields _ ih => exact List.forall_mem_cons.2 ⟨not_halts_of_yields hyields, ih⟩

theorem exists_halts_of_haltsAmong (h : HaltsAmong lines f) : ∃ line ∈ lines, Halts line f := by
  induction h with
  | @here line f hhalts rest => exact ⟨line, List.mem_cons_self, hhalts⟩
  | later _ _ ih =>
    obtain ⟨line, hmem, hhalts⟩ := ih
    exact ⟨line, List.mem_cons_of_mem _ hmem, hhalts⟩

/-- Reading a text sets what its lines yield, one after another. -/
theorem ofText_of_yields (h : List.Forall₂ Yields (Text.boundaryLines text.toList) remarks) :
    ofText text = .ok (ofRemarks remarks) := by
  unfold ofText ofRemarks
  generalize Text.boundaryLines text.toList = lines at h
  generalize empty = m
  induction h generalizing m with
  | nil => rfl
  | cons hyields _ ih =>
    rw [List.foldlM_cons, addLine_of_yields hyields]
    exact ih _

theorem ofText_of_halts (h : HaltsAmong (Text.boundaryLines text.toList) f) :
    ofText text = .error f := by
  unfold ofText
  generalize Text.boundaryLines text.toList = lines at h
  generalize empty = m
  induction h generalizing m with
  | here hhalts rest =>
    rw [List.foldlM_cons, addLine_of_halts hhalts]
    rfl
  | later hyields _ ih =>
    rw [List.foldlM_cons, addLine_of_yields hyields]
    exact ih _

/-- A text that is read as a memory has no line that halts. -/
theorem exists_yields_of_ofText {m : Memory} (h : ofText text = .ok m) :
    ∃ remarks, List.Forall₂ Yields (Text.boundaryLines text.toList) remarks ∧
      m = ofRemarks remarks := by
  rcases yields_all_or_halts (Text.boundaryLines text.toList) with ⟨remarks, hyields⟩ | ⟨f, hhalts⟩
  · rw [ofText_of_yields hyields] at h
    exact ⟨remarks, hyields, (Except.ok.inj h).symm⟩
  · rw [ofText_of_halts hhalts] at h
    cases h

end Memory

end ImportAtlas
