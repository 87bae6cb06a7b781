import ImportAtlas.Proofs.Search.Coverage

/-!
# The graph of some analyses

Node `n` of the graph is the analysis at place `n`, and the edges are the imports that resolve to
the path of an analysis. `byPath?` reads an edge by the paths of the files it joins, which says the
same in every order of the analyses. Edges lead a node back to itself exactly if, read by path, they
lead a path back to itself.
-/

namespace ImportAtlas.Graph

variable {r : Resolver} {analyses : List (FileAnalysis String)}

/-! ## Numbers and paths -/

theorem idOf?_eq_some {path : String} {n : Nat} (h : idOf? analyses path = some n) :
    ∃ a, analyses[n]? = some a ∧ a.path = path := by
  obtain ⟨hn, hpath, -⟩ := List.findIdx?_eq_some_iff_getElem.1 h
  exact ⟨analyses[n], List.getElem?_eq_getElem hn, beq_iff_eq.1 hpath⟩

theorem idOf?_isSome_iff {path : String} :
    (idOf? analyses path).isSome ↔ path ∈ analyses.map (·.path) := by
  rw [idOf?, List.findIdx?_isSome, List.any_eq_true, List.mem_map]
  simp only [beq_iff_eq]

theorem exists_idOf? {a : FileAnalysis String} (h : a ∈ analyses) :
    ∃ n, idOf? analyses a.path = some n :=
  Option.isSome_iff_exists.1 (idOf?_isSome_iff.2 (List.mem_map_of_mem h))

/-- The node with a number is that of the analysis in its place. -/
theorem node?_build (n : Nat) : (build r analyses).node? n = analyses[n]?.map (nodeOf n) := by
  show (analyses.mapIdx nodeOf).find? (·.id == (n : Int)) = _
  cases hn : analyses[n]? with
  | none =>
    refine List.find?_eq_none.2 fun node hnode => ?_
    obtain ⟨k, hk, rfl⟩ := List.mem_mapIdx.1 hnode
    have hle := List.getElem?_eq_none_iff.1 hn
    simp only [nodeOf, beq_iff_eq, Int.natCast_inj]
    omega
  | some a =>
    obtain ⟨hlt, ha⟩ := List.getElem?_eq_some_iff.1 hn
    refine List.find?_eq_some_iff_getElem.2 ⟨by simp [nodeOf], n, by simpa using hlt, ?_, ?_⟩
    · rw [List.getElem_mapIdx, ha]
    · intro k hk
      have hne : (k : Int) ≠ n := by omega
      simp [nodeOf, hne]

/-- Nodes are numbered from zero. -/
theorem ids_build (r : Resolver) (analyses : List (FileAnalysis String)) :
    (build r analyses).nodes.map (·.id) = (List.range analyses.length).map Int.ofNat := by
  refine List.ext_getElem (by simp [build]) fun k hk _ => ?_
  simp [build, nodeOf]

/-- What does not depend on the number of a node is read off its analysis. -/
theorem map_nodes_build {α : Type} {f : SourceFile String → α} {g : FileAnalysis String → α}
    (h : ∀ k a, f (nodeOf k a) = g a) (r : Resolver) (analyses : List (FileAnalysis String)) :
    (build r analyses).nodes.map f = analyses.map g := by
  refine List.ext_getElem (by simp [build]) fun k hk _ => ?_
  simp [build, h]

/-! ## Edges -/

/-- An import becomes an edge exactly if it points into the project and what it resolves to is the
path of an analysis. -/
theorem edgeOf?_eq_some_iff {a : FileAnalysis String} {i : Import String} {e : Edge String} :
    edgeOf? r analyses a i = some e ↔ i.isRelative = true ∧ ∃ (s t : Nat) (path : String),
      idOf? analyses a.path = some s ∧ r.target? i.specifier a.path = some path ∧
      idOf? analyses path = some t ∧ e = ⟨s, t, i.name, i.specifier, i.line⟩ := by
  unfold edgeOf?
  by_cases hrel : i.isRelative = true
  · rw [if_pos hrel]
    simp only [bind, Option.bind_eq_some_iff, pure, Option.some.injEq]
    constructor
    · rintro ⟨s, hs, t, ⟨path, hpath, ht⟩, rfl⟩
      exact ⟨hrel, s, t, path, hs, hpath, ht, rfl⟩
    · rintro ⟨-, s, t, path, hs, hpath, ht, rfl⟩
      exact ⟨s, hs, t, ⟨path, hpath, ht⟩, rfl⟩
  · rw [if_neg hrel]
    simp [hrel]

theorem mem_edges_build {e : Edge String} :
    e ∈ (build r analyses).edges ↔
      ∃ a ∈ analyses, ∃ i ∈ a.imports, edgeOf? r analyses a i = some e := by
  simp [build]

theorem mem_nodes_build {path : String} {n : Nat} (h : idOf? analyses path = some n) :
    (n : Int) ∈ (build r analyses).links.nodes := by
  obtain ⟨hn, -⟩ := List.findIdx?_eq_some_iff_getElem.1 h
  exact List.mem_map.2 ⟨nodeOf n analyses[n], List.mem_mapIdx.2 ⟨n, hn, rfl⟩, rfl⟩

/-- Both ends of an edge are nodes. -/
theorem edge_ends {e : Edge String} (h : e ∈ (build r analyses).edges) :
    e.source ∈ (build r analyses).links.nodes ∧ e.target ∈ (build r analyses).links.nodes := by
  obtain ⟨a, -, i, -, hi⟩ := mem_edges_build.1 h
  obtain ⟨-, s, t, path, hs, -, ht, rfl⟩ := edgeOf?_eq_some_iff.1 hi
  exact ⟨mem_nodes_build hs, mem_nodes_build ht⟩

theorem adjacent_build {u v : Int} (h : (build r analyses).links.Adjacent u v) :
    u ∈ (build r analyses).links.nodes ∧ v ∈ (build r analyses).links.nodes := by
  rw [adjacent_links] at h
  obtain ⟨e, he, rfl, rfl⟩ := h
  exact edge_ends he

/-- Only nodes can be reached. -/
theorem reached_build {v : Int} (h : (build r analyses).links.Reached v) :
    v ∈ (build r analyses).links.nodes := by
  obtain ⟨n, hn, hwalk⟩ := h
  cases hwalk with
  | refl => exact hn
  | tail _ hstep => exact (adjacent_build hstep).2

/-- The graph of some analyses has a reported cycle exactly if its edges lead some node back to
itself. -/
theorem cycles_build_ne_nil_iff (r : Resolver) (analyses : List (FileAnalysis String)) :
    (build r analyses).cycles ≠ [] ↔ ∃ v, Relation.TransGen (build r analyses).Adjacent v v := by
  rw [cycles, Ne, Links.cycles_eq_nil_iff fun _ _ h => (adjacent_build h).1, adjacent_links,
    Classical.not_not]

/-! ## Edges by path -/

/-- An edge between two files named by their paths. -/
structure PathEdge where
  source : String
  target : String
  name : String
  specifier : String
  line : Int
  deriving DecidableEq, Repr

/-- An edge with the paths of its nodes in place of their numbers; none if a node is missing. -/
def byPath? (g : Graph String) (e : Edge String) : Option PathEdge := do
  let s ← g.node? e.source
  let t ← g.node? e.target
  return ⟨s.path, t.path, e.name, e.specifier, e.line⟩

/-- The edge by path of an import whose target is among the given paths. -/
def pathEdge? (r : Resolver) (paths : List String) (a : FileAnalysis String) (i : Import String) :
    Option PathEdge :=
  if i.isRelative then
    ((r.target? i.specifier a.path).filter (· ∈ paths)).map
      fun path => ⟨a.path, path, i.name, i.specifier, i.line⟩
  else none

theorem byPath?_build {s t : Nat} {a b : FileAnalysis String} (hs : analyses[s]? = some a)
    (ht : analyses[t]? = some b) (name specifier : String) (line : Int) :
    (build r analyses).byPath? ⟨s, t, name, specifier, line⟩ =
      some ⟨a.path, b.path, name, specifier, line⟩ := by
  simp [byPath?, node?_build, hs, ht, nodeOf]

/-- The edge of an import, read by path, does not depend on how the nodes are numbered. -/
theorem byPath?_edgeOf? {a : FileAnalysis String} (ha : a ∈ analyses) (i : Import String) :
    (edgeOf? r analyses a i).map (build r analyses).byPath? =
      (pathEdge? r (analyses.map (·.path)) a i).map some := by
  unfold edgeOf? pathEdge?
  by_cases hrel : i.isRelative = true
  · rw [if_pos hrel, if_pos hrel]
    obtain ⟨s, hs⟩ := exists_idOf? ha
    obtain ⟨a', hget, hpath⟩ := idOf?_eq_some hs
    cases htarget : r.target? i.specifier a.path with
    | none => simp [hs]
    | some path =>
      cases ht : idOf? analyses path with
      | none =>
        have hnot : path ∉ analyses.map (·.path) := by
          rw [← idOf?_isSome_iff, ht]
          simp
        simp only [bind, Option.bind, hs, ht, Option.filter, hnot]
        rfl
      | some t =>
        have hmem : path ∈ analyses.map (·.path) := by
          rw [← idOf?_isSome_iff, ht]
          rfl
        obtain ⟨b, hget', hpath'⟩ := idOf?_eq_some ht
        simp only [bind, Option.bind, hs, ht, Option.filter, hmem]
        simp [byPath?_build hget hget', hpath, hpath']
  · rw [if_neg hrel, if_neg hrel]
    rfl

/-- The edges by path, import after import. -/
theorem edges_byPath (r : Resolver) (analyses : List (FileAnalysis String)) :
    (build r analyses).edges.map (build r analyses).byPath? =
      (analyses.flatMap fun a =>
        a.imports.filterMap (pathEdge? r (analyses.map (·.path)) a)).map some := by
  simp only [build, List.map_flatMap]
  refine List.flatMap_congr fun a ha => ?_
  rw [List.map_filterMap, List.map_filterMap]
  exact List.filterMap_congr fun i _ => byPath?_edgeOf? ha i

/-- Every edge can be read by path, and its ends are the numbers of the two paths. -/
theorem exists_byPath {e : Edge String} (h : e ∈ (build r analyses).edges) :
    ∃ k s t, (build r analyses).byPath? e = some k ∧ idOf? analyses k.source = some s ∧
      idOf? analyses k.target = some t ∧ e.source = (s : Nat) ∧ e.target = (t : Nat) := by
  obtain ⟨a, -, i, -, hi⟩ := mem_edges_build.1 h
  obtain ⟨-, s, t, path, hs, -, ht, rfl⟩ := edgeOf?_eq_some_iff.1 hi
  obtain ⟨a', hget, hpath⟩ := idOf?_eq_some hs
  obtain ⟨b, hget', hpath'⟩ := idOf?_eq_some ht
  exact ⟨_, s, t, byPath?_build hget hget' _ _ _, hpath ▸ hs, hpath' ▸ ht, rfl, rfl⟩

/-- Some edge leads from the file `p` to the file `q`. -/
def Joins (g : Graph String) (p q : String) : Prop :=
  ∃ k, some k ∈ g.edges.map g.byPath? ∧ k.source = p ∧ k.target = q

/-- Edges lead a node back to itself exactly if they lead a path back to itself. -/
theorem exists_loop_iff :
    (∃ v, Relation.TransGen (build r analyses).Adjacent v v) ↔
      ∃ p, Relation.TransGen (build r analyses).Joins p p := by
  constructor
  · rintro ⟨v, hv⟩
    let pathOf (v : Int) : String := (((build r analyses).node? v).map (·.path)).getD ""
    refine ⟨pathOf v, hv.lift pathOf ?_⟩
    rintro u v ⟨e, he, rfl, rfl⟩
    obtain ⟨k, -, -, hk, -⟩ := exists_byPath he
    refine ⟨k, List.mem_map.2 ⟨e, he, hk⟩, ?_⟩
    simp only [byPath?, bind, Option.bind_eq_some_iff, pure, Option.some.injEq] at hk
    obtain ⟨s, hs, t, ht, rfl⟩ := hk
    simp [pathOf, hs, ht]
  · rintro ⟨p, hp⟩
    let numberOf (p : String) : Int := (idOf? analyses p).getD 0
    refine ⟨numberOf p, hp.lift numberOf ?_⟩
    rintro p q ⟨k, hk, rfl, rfl⟩
    obtain ⟨e, he, hk⟩ := List.mem_map.1 hk
    obtain ⟨k', s, t, hk', hs, ht, hsource, htarget⟩ := exists_byPath he
    cases hk.symm.trans hk'
    exact ⟨e, he, by simp [numberOf, hs, hsource], by simp [numberOf, ht, htarget]⟩

end ImportAtlas.Graph
