import ImportAtlas.Proofs.Search.Moves
import Mathlib.Data.List.Nodup

/-!
# The cycles found are cycles

`Sound` is what every move of the search keeps: the path is a simple walk along edges, all nodes
reached can be reached from a listed node, and all cycles found are simple closed walks. A cycle is
cut off the inner end of the path, so its links are links of the path and its closing edge is the
edge that the search has just followed.
-/

namespace ImportAtlas.Links

/-- A simple closed walk along edges that can be reached from a listed node. -/
structure IsCycle (l : Links) (c : List Int) : Prop where
  nonempty : c ≠ []
  simple : c.Nodup
  linked : c.IsChain l.Adjacent
  closed : ∀ u ∈ c.getLast?, ∀ v ∈ c.head?, l.Adjacent u v
  reached : ∀ v ∈ c, l.Reached v

namespace Search

/-! ## The part of a path that begins at a node -/

theorem head?_cycleAt (t : Int) (path : List Int) : (cycleAt t path).head? = some t := rfl

theorem takeWhile_append_singleton_prefix {t : Int} {path : List Int} (h : t ∈ path) :
    path.takeWhile (· ≠ t) ++ [t] <+: path := by
  induction path with
  | nil => cases h
  | cons u path ih =>
    by_cases hu : u = t
    · subst hu; simp
    · have ht : t ∈ path := (List.mem_cons.1 h).resolve_left (Ne.symm hu)
      simpa [List.takeWhile_cons, hu] using ih ht

/-- Walked backwards, the cycle is the inner end of the path. -/
theorem reverse_cycleAt_prefix {t : Int} {path : List Int} (h : t ∈ path) :
    (cycleAt t path).reverse <+: path := by
  simpa [cycleAt] using takeWhile_append_singleton_prefix h

theorem getLast?_cycleAt {t v : Int} {path : List Int} (h : t ∈ v :: path) :
    (cycleAt t (v :: path)).getLast? = some v := by
  obtain ⟨rest, hrest⟩ := reverse_cycleAt_prefix h
  have hne : (cycleAt t (v :: path)).reverse ≠ [] := by simp [cycleAt]
  rw [List.getLast?_eq_head?_reverse]
  cases hc : (cycleAt t (v :: path)).reverse with
  | nil => exact absurd hc hne
  | cons u us =>
    rw [hc, List.cons_append] at hrest
    rw [(List.cons.inj hrest).1]
    rfl

end Search

/-- A cycle cut off a simple path by an edge from its innermost node. -/
theorem isCycle_cycleAt {l : Links} {v t : Int} {path : List Int} (ht : t ∈ v :: path)
    (simple : (v :: path).Nodup) (linked : (v :: path).IsChain fun a b => l.Adjacent b a)
    (reached : ∀ u ∈ v :: path, l.Reached u) (edge : l.Adjacent v t) :
    l.IsCycle (Search.cycleAt t (v :: path)) where
  nonempty := by simp [Search.cycleAt]
  simple := List.nodup_reverse.1 ((Search.reverse_cycleAt_prefix ht).sublist.nodup simple)
  linked := by
    have h := linked.prefix (Search.reverse_cycleAt_prefix ht)
    rwa [List.isChain_reverse] at h
  closed := by
    intro a ha b hb
    rw [Search.getLast?_cycleAt ht, Option.mem_some_iff] at ha
    rw [Search.head?_cycleAt, Option.mem_some_iff] at hb
    subst ha hb
    exact edge
  reached := by
    intro u hu
    exact reached u ((Search.reverse_cycleAt_prefix ht).subset (List.mem_reverse.2 hu))

/-! ## The invariant -/

/-- What the search keeps. -/
structure Sound (l : Links) (s : Search) : Prop where
  simple : s.path.Nodup
  /-- Each node of the path is a target of the one outside it. -/
  linked : s.path.IsChain fun v u => l.Adjacent u v
  pending : l.Pending s
  marked : s.path ⊆ s.visited
  reached : ∀ v ∈ s.visited, l.Reached v
  found : ∀ c ∈ s.found, l.IsCycle c

theorem sound_initial (l : Links) : l.Sound Search.initial where
  simple := List.nodup_nil
  linked := List.isChain_nil
  pending := by simp [Pending, Search.initial]
  marked := List.nil_subset _
  reached := by simp [Search.initial]
  found := by simp [Search.initial]

theorem Sound.start {l : Links} {s : Search} (h : l.Sound s) {v : Int} (hv : v ∈ l.nodes) :
    l.Sound (s.start l.targets v) where
  simple := List.nodup_singleton v
  linked := List.isChain_singleton v
  pending := l.pending_start s v
  marked := List.cons_subset.2 ⟨List.mem_cons_self, List.nil_subset _⟩
  reached := by
    intro u hu
    rcases List.mem_cons.1 hu with rfl | hu
    · exact ⟨u, hv, .refl⟩
    · exact h.reached u hu
  found := h.found

theorem Sound.move {l : Links} {s s' : Search} (h : l.Sound s)
    (m : Search.Move l.targets s s') : l.Sound s' := by
  have hpending := h.pending.move m
  cases m with
  | leave v outer =>
    exact ⟨(List.nodup_cons.1 h.simple).2, h.linked.tail, hpending,
      (List.cons_subset.1 h.marked).2, h.reached, h.found⟩
  | close v t ts outer visited found ht =>
    refine ⟨h.simple, h.linked, hpending, h.marked, h.reached, ?_⟩
    intro c hc
    rcases List.mem_cons.1 hc with rfl | hc
    -- the edge just followed closes the part of the path that begins where it ends
    · have edge := h.pending ⟨v, t :: ts⟩ List.mem_cons_self t List.mem_cons_self
      exact isCycle_cycleAt ht h.simple h.linked (fun u hu => h.reached u (h.marked hu))
        (mem_targets.1 edge)
    · exact h.found c hc
  | pass => exact ⟨h.simple, h.linked, hpending, h.marked, h.reached, h.found⟩
  | enter v t ts outer visited found ht hv =>
    have edge : l.Adjacent v t :=
      mem_targets.1 (h.pending ⟨v, t :: ts⟩ List.mem_cons_self t List.mem_cons_self)
    refine ⟨List.nodup_cons.2 ⟨ht, h.simple⟩, List.isChain_cons_cons.2 ⟨edge, h.linked⟩, hpending,
      List.cons_subset_cons t h.marked, ?_, h.found⟩
    intro u hu
    rcases List.mem_cons.1 hu with rfl | hu
    · exact (h.reached v (h.marked List.mem_cons_self)).step edge
    · exact h.reached u hu

theorem sound_search (l : Links) : l.Sound l.search :=
  l.search_induction l.Sound l.sound_initial (fun _ _ hv _ _ h => h.start hv)
    (fun _ _ h m => h.move m)

theorem isCycle_of_mem_cycles {l : Links} {c : List Int} (h : c ∈ l.cycles) : l.IsCycle c := by
  rw [cycles_eq_found, List.mem_reverse] at h
  exact l.sound_search.found c h

/-- A cycle leads from each of its ends back to itself. -/
theorem IsCycle.exists_loop {l : Links} {c : List Int} (h : l.IsCycle c) :
    ∃ v, Relation.TransGen l.Adjacent v v := by
  have hwalk := List.relationReflTransGen_of_exists_isChain c h.linked h.nonempty
  have hclose : l.Adjacent (c.getLast h.nonempty) (c.head h.nonempty) :=
    h.closed _ (List.getLast?_eq_some_getLast h.nonempty) _ (List.head?_eq_some_head h.nonempty)
  exact ⟨c.head h.nonempty, Relation.TransGen.tail' hwalk hclose⟩

end ImportAtlas.Links

namespace ImportAtlas.Graph

variable {τ : Type}

/-- Every cycle that the search reports is a simple closed walk along edges of the graph, and each
of its nodes can be reached from a listed node. -/
theorem cycles_are_simple_closed_walks (g : Graph τ) (c : List Int) (h : c ∈ g.cycles) :
    c ≠ [] ∧ c.Nodup ∧ c.IsChain g.Adjacent ∧
      (∀ u ∈ c.getLast?, ∀ v ∈ c.head?, g.Adjacent u v) ∧ ∀ v ∈ c, g.Reached v := by
  have hc := Links.isCycle_of_mem_cycles h
  have linked := hc.linked
  have closed := hc.closed
  rw [adjacent_links] at linked closed
  exact ⟨hc.nonempty, hc.simple, linked, closed,
    fun v hv => (g.reached_links v).1 (hc.reached v hv)⟩

/-- Two files that import each other, one of which imports a file outside the list that imports
itself twice. -/
def mutualImports : Graph String where
  nodes := [⟨0, "a.ts", "src/a.ts", "other", 1, 0⟩, ⟨1, "b.ts", "src/b.ts", "other", 2, 0⟩]
  edges := [⟨0, 1, "b", "./b", 1⟩, ⟨1, 0, "a", "./a", 1⟩, ⟨1, 7, "c", "./c", 2⟩,
    ⟨7, 7, "c", "./c", 1⟩, ⟨7, 7, "d", "./c", 1⟩]

theorem mutualImports_reports_pair :
    [0, 1] ∈ mutualImports.cycles ∧ mutualImports.Adjacent 1 0 ∧ mutualImports.Reached 1 := by
  have hmem : [0, 1] ∈ mutualImports.cycles := by decide
  obtain ⟨-, -, -, closed, reached⟩ := mutualImports.cycles_are_simple_closed_walks [0, 1] hmem
  exact ⟨hmem, closed 1 rfl 0 rfl, reached 1 (by decide)⟩

end ImportAtlas.Graph
