import ImportAtlas.Gate.Shape

/-!
# Well-shaped documents

What `shapeError?` looks for, said of the document as a whole: a document without a shape error has
the members that the rules read, of the kinds that they expect.
-/

namespace ImportAtlas.Gate

theorem isInteger_iff {v : Json} : isInteger v = true ↔ ∃ i, v = .int i := by
  cases v with
  | num n => cases n <;> simp [isInteger]
  | _ => simp [isInteger]

theorem isList_iff {v : Json} : isList v = true ↔ ∃ vs, v = .arr vs := by
  cases v <;> simp [isList]

theorem isText_iff {v : Json} : isText v = true ↔ ∃ s, v = .str s := by
  cases v <;> simp [isText]

theorem isCycle_iff {v : Json} :
    isCycle v = true ↔ ∃ vs, v = .arr vs ∧ ∀ u ∈ vs, ∃ i, u = .int i := by
  cases v <;> simp [isCycle, isInteger_iff]

theorem isNode_iff {v : Json} :
    isNode v = true ↔ ∀ n id, v = .obj n → n.lookup "id" = some id → ∃ i, id = .int i := by
  cases v with
  | obj n =>
    simp only [isNode, Json.obj.injEq]
    constructor
    · rintro h _ id rfl hid
      rw [hid] at h
      exact isInteger_iff.1 h
    · intro h
      cases hid : n.lookup "id" with
      | none => rfl
      | some id => exact isInteger_iff.2 (h n id rfl hid)
  | _ => simp [isNode]

/-- A document with the members that the rules read, of the kinds that they expect. -/
structure WellShaped (d : Document) : Prop where
  summary : ∃ s nodes edges, d.lookup "summary" = some (.obj s) ∧
    s.lookup "totalNodes" = some (.int nodes) ∧ s.lookup "totalEdges" = some (.int edges)
  lists : ∀ key ∈ ["cycles", "unusedExports", "typeNodes"], ∀ v, d.lookup key = some v →
    ∃ vs, v = .arr vs
  graph : ∀ v, d.lookup "graph" = some v → v = .null ∨
    ∃ g, v = .obj g ∧ ∀ nodes, g.lookup "nodes" = some nodes → ∃ vs, nodes = .arr vs
  cycles : ∀ c ∈ items (d.lookup "cycles"), ∃ vs, c = .arr vs ∧ ∀ u ∈ vs, ∃ i, u = .int i
  nodes : ∀ v ∈ graphNodes d, ∀ n id, v = .obj n → n.lookup "id" = some id → ∃ i, id = .int i
  timestamp : ∀ v, d.lookup "timestamp" = some v → ∃ s, v = .str s

theorem any_isInteger_iff {v : Option Json} :
    v.any isInteger = true ↔ ∃ i, v = some (.int i) := by
  cases v <;> simp [isInteger_iff]

theorem summaryError?_eq_none_iff {d : Document} :
    summaryError? d = none ↔ ∃ s nodes edges, d.lookup "summary" = some (.obj s) ∧
      s.lookup "totalNodes" = some (.int nodes) ∧ s.lookup "totalEdges" = some (.int edges) := by
  unfold summaryError?
  split
  · next s hs => simp [List.find?_eq_none, any_isInteger_iff, hs]
  · next h =>
    constructor
    · rintro ⟨⟩
    · rintro ⟨s, _, _, hs, -⟩
      exact absurd hs (h s)

theorem listError?_eq_none_iff {d : Document} :
    listError? d = none ↔ ∀ key ∈ ["cycles", "unusedExports", "typeNodes"], ∀ v,
      d.lookup key = some v → ∃ vs, v = .arr vs := by
  have hany (key : String) : (d.lookup key).any (!isList ·) = false ↔
      ∀ v, d.lookup key = some v → ∃ vs, v = .arr vs := by
    cases d.lookup key <;> simp [isList_iff]
  simp only [listError?, Option.map_eq_none_iff, List.find?_eq_none, Bool.not_eq_true, hany]

theorem graphError?_eq_none_iff {d : Document} :
    graphError? d = none ↔ ∀ v, d.lookup "graph" = some v → v = .null ∨
      ∃ g, v = .obj g ∧ ∀ nodes, g.lookup "nodes" = some nodes → ∃ vs, nodes = .arr vs := by
  unfold graphError?
  cases d.lookup "graph" with
  | none => simp
  | some v =>
    cases v with
    | obj g => cases h : g.lookup "nodes" <;> simp [isList_iff, h]
    | _ => simp

theorem all_isText_iff {v : Option Json} :
    v.all isText = true ↔ ∀ u, v = some u → ∃ s, u = .str s := by
  cases v <;> simp [isText_iff]

/-- The gate reads exactly the well-shaped documents. -/
theorem shapeError?_eq_none_iff {d : Document} : shapeError? d = none ↔ WellShaped d := by
  simp only [shapeError?, Option.or_eq_none_iff, summaryError?_eq_none_iff, listError?_eq_none_iff,
    graphError?_eq_none_iff, ite_eq_left_iff, reduceCtorEq, imp_false, Classical.not_not,
    List.all_eq_true, isCycle_iff, isNode_iff, all_isText_iff]
  exact ⟨fun ⟨h₁, h₂, h₃, h₄, h₅, h₆⟩ => ⟨h₁, h₂, h₃, h₄, h₅, h₆⟩,
    fun ⟨h₁, h₂, h₃, h₄, h₅, h₆⟩ => ⟨h₁, h₂, h₃, h₄, h₅, h₆⟩⟩

end ImportAtlas.Gate
