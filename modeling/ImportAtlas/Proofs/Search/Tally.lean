import ImportAtlas.Proofs.Search.Soundness
import Mathlib.Data.List.Count
import Mathlib.Data.List.Rotate
import Mathlib.Data.List.Sort

/-!
# How often a cycle is found

While a node is innermost, the path to it stays the same, so each of its edges to one and the same
target closes the same cycle or none of them closes one. `Tallied` keeps the account of the nodes on
the path: what was found for the edges followed so far. `Uniform` is what is left of it when a node
is left. A cycle runs through its nodes in the order in which the search entered them, so no other
cycle runs through the same nodes.
-/

namespace ImportAtlas.Links

open Search (cycleAt nodesOf)
open scoped List

/-- The cycles that begin with `v` and end with `u`, which edges from `u` to `v` close. -/
def closedBy (cycles : List (List Int)) (u v : Int) : List (List Int) :=
  cycles.filter fun c => c.head? = some v ∧ c.getLast? = some u

theorem closedBy_reverse (cycles : List (List Int)) (u v : Int) :
    closedBy cycles.reverse u v = (closedBy cycles u v).reverse :=
  List.filter_reverse

variable {l : Links} {found : List (List Int)} {path : List Int} {u v t : Int}

theorem closedBy_cons_self (ht : t ∈ v :: path) :
    closedBy (cycleAt t (v :: path) :: found) v t =
      cycleAt t (v :: path) :: closedBy found v t := by
  rw [closedBy, List.filter_cons_of_pos]
  · rfl
  · simp [Search.head?_cycleAt, Search.getLast?_cycleAt ht]

theorem closedBy_cons_of_ne (ht : t ∈ v :: path) {w : Int} (h : u ≠ v ∨ w ≠ t) :
    closedBy (cycleAt t (v :: path) :: found) u w = closedBy found u w := by
  rw [closedBy, List.filter_cons_of_neg]
  · rfl
  · simp only [Search.head?_cycleAt, Search.getLast?_cycleAt ht, Option.some.injEq,
      decide_eq_true_eq]
    rintro ⟨rfl, rfl⟩
    rcases h with h | h <;> exact h rfl

/-! ## Nodes on the path -/

/-- What is found for the targets `done` that were followed from the first node of a path: one cycle
for each of them that is on the path. -/
def Recorded (found : List (List Int)) (u : Int) (path done : List Int) : Prop :=
  ∀ v, closedBy found u v = List.replicate (if v ∈ path then done.count v else 0) (cycleAt v path)

/-- An edge back to the path adds a cycle. -/
theorem Recorded.close {done : List Int} (h : Recorded found v (v :: path) done)
    (ht : t ∈ v :: path) :
    Recorded (cycleAt t (v :: path) :: found) v (v :: path) (done ++ [t]) := by
  intro w
  by_cases hw : w = t
  · subst hw
    rw [closedBy_cons_self ht, h w, if_pos ht, if_pos ht, List.count_append,
      List.count_singleton_self, List.replicate_succ]
  · rw [closedBy_cons_of_ne ht (.inr hw), h w, List.count_append,
      List.count_singleton, beq_eq_false_iff_ne.2 (Ne.symm hw)]
    rfl

/-- An edge that leads away from the path adds nothing. -/
theorem Recorded.pass {done : List Int} (h : Recorded found u path done) (ht : t ∉ path) :
    Recorded found u path (done ++ [t]) := by
  intro w
  rw [h w]
  by_cases hw : w ∈ path
  · have hne : t ≠ w := fun heq => ht (heq ▸ hw)
    rw [if_pos hw, if_pos hw, List.count_append, List.count_singleton, beq_eq_false_iff_ne.2 hne]
    rfl
  · rw [if_neg hw, if_neg hw]

/-- What is found for each node of the path is what its followed targets give. -/
def Tallied (l : Links) (found : List (List Int)) : List Frame → Prop
  | [] => True
  | f :: outer =>
    (∃ done, l.targets f.node = done ++ f.rest ∧
      Recorded found f.node (f.node :: nodesOf outer) done) ∧ Tallied l found outer

/-- A cycle that ends with another node changes nothing in the account. -/
theorem Tallied.cons {frames : List Frame} (h : l.Tallied found frames) (ht : t ∈ v :: path)
    (hv : v ∉ nodesOf frames) : l.Tallied (cycleAt t (v :: path) :: found) frames := by
  induction frames with
  | nil => trivial
  | cons f outer ih =>
    obtain ⟨hne, hout⟩ := List.ne_and_not_mem_of_not_mem_cons hv
    obtain ⟨⟨done, htargets, hrecorded⟩, houter⟩ := h
    refine ⟨⟨done, htargets, fun w => ?_⟩, ih houter hout⟩
    rw [closedBy_cons_of_ne ht (.inl (Ne.symm hne))]
    exact hrecorded w

/-- The innermost node has followed one more target. -/
theorem Tallied.follow {found' : List (List Int)} {ts : List Int} {outer : List Frame}
    (h : l.Tallied found (⟨v, t :: ts⟩ :: outer)) (houter : l.Tallied found' outer)
    (next : ∀ done, Recorded found v (v :: nodesOf outer) done →
      Recorded found' v (v :: nodesOf outer) (done ++ [t])) :
    l.Tallied found' (⟨v, ts⟩ :: outer) := by
  obtain ⟨⟨done, htargets, hrecorded⟩, -⟩ := h
  refine ⟨⟨done ++ [t], ?_, next done hrecorded⟩, houter⟩
  rw [htargets, List.append_assoc, List.singleton_append]

/-! ## The invariant -/

/-- All cycles from `u` to one target are the same, and there are as many as edges, or none. -/
def Uniform (l : Links) (found : List (List Int)) (u : Int) : Prop :=
  ∀ v, ∃ c n, closedBy found u v = List.replicate n c ∧ (n = 0 ∨ n = (l.targets u).count v)

/-- What the search keeps. -/
structure Counted (l : Links) (s : Search) : Prop where
  tallied : l.Tallied s.found s.frames
  /-- Nodes that are not on the path: those that were left, and those that are still to be entered. -/
  uniform : ∀ u ∉ s.path, l.Uniform s.found u
  fresh : ∀ u ∉ s.visited, ∀ v, closedBy s.found u v = []
  simple : s.path.Nodup
  marked : s.path ⊆ s.visited

theorem uniform_of_closedBy (h : ∀ v, closedBy found u v = []) : l.Uniform found u :=
  fun v => ⟨[], 0, h v, .inl rfl⟩

theorem counted_initial (l : Links) : l.Counted Search.initial where
  tallied := trivial
  uniform := fun _ _ => uniform_of_closedBy fun _ => rfl
  fresh := fun _ _ _ => rfl
  simple := List.nodup_nil
  marked := List.nil_subset _

/-- A node that is entered has followed nothing, and nothing was found for it. -/
theorem Counted.enter {s : Search} (h : l.Counted s) (hv : v ∉ s.visited) :
    Recorded s.found v (v :: path) [] := by
  intro w
  rw [h.fresh v hv w]
  simp

theorem Counted.start {s : Search} (h : l.Counted s) (hframes : s.frames = []) (hv : v ∉ s.visited) :
    l.Counted (s.start l.targets v) where
  tallied := ⟨⟨[], rfl, h.enter hv⟩, trivial⟩
  uniform := fun u _ => h.uniform u (by simp [Search.path, hframes])
  fresh := fun u hu => h.fresh u fun hmem => hu (List.mem_cons_of_mem v hmem)
  simple := List.nodup_singleton v
  marked := List.cons_subset.2 ⟨List.mem_cons_self, List.nil_subset _⟩

theorem Counted.move {s s' : Search} (h : l.Counted s) (m : Search.Move l.targets s s') :
    l.Counted s' := by
  cases m with
  | leave v outer visited found =>
    obtain ⟨⟨done, htargets, hrecorded⟩, houter⟩ := h.tallied
    rw [List.append_nil] at htargets
    refine ⟨houter, fun u hu => ?_, h.fresh, (List.nodup_cons.1 h.simple).2,
      (List.cons_subset.1 h.marked).2⟩
    by_cases huv : u = v
    -- all edges of the node were followed, so the account of it is closed
    · subst huv
      refine fun w => ⟨_, _, hrecorded w, ?_⟩
      rw [htargets]
      split
      · exact .inr rfl
      · exact .inl rfl
    · exact h.uniform u (List.not_mem_cons_of_ne_of_not_mem huv hu)
  | close v t ts outer visited found ht =>
    obtain ⟨hv, -⟩ := List.nodup_cons.1 h.simple
    have hother {u w : Int} (hu : u ≠ v) :
        closedBy (cycleAt t (v :: nodesOf outer) :: found) u w = closedBy found u w :=
      closedBy_cons_of_ne ht (.inl hu)
    refine ⟨h.tallied.follow (h.tallied.2.cons ht hv) fun done hdone => hdone.close ht, ?_, ?_,
      h.simple, h.marked⟩
    · intro u hu w
      rw [hother (List.ne_of_not_mem_cons hu)]
      exact h.uniform u hu w
    · intro u hu w
      have huv : u ≠ v := by
        rintro rfl
        exact hu (h.marked List.mem_cons_self)
      rw [hother huv]
      exact h.fresh u hu w
  | pass v t ts outer visited found ht hv =>
    exact ⟨h.tallied.follow h.tallied.2 fun done hdone => hdone.pass ht, h.uniform, h.fresh,
      h.simple, h.marked⟩
  | enter v t ts outer visited found ht hv =>
    have hbefore := h.tallied.follow h.tallied.2 fun done hdone => hdone.pass ht
    refine ⟨⟨⟨[], rfl, h.enter hv⟩, hbefore⟩, ?_, ?_, List.nodup_cons.2 ⟨ht, h.simple⟩,
      List.cons_subset_cons t h.marked⟩
    · exact fun u hu => h.uniform u fun hmem => hu (List.mem_cons_of_mem t hmem)
    · exact fun u hu => h.fresh u fun hmem => hu (List.mem_cons_of_mem t hmem)

theorem counted_search (l : Links) : l.Counted l.search :=
  l.search_induction l.Counted l.counted_initial (fun _ _ _ hf hv h => h.start hf hv)
    (fun _ _ h m => h.move m)

/-! ## The order of entering -/

/-- The path and the cycles found run through nodes in the order in which they were entered. -/
structure InOrder (s : Search) : Prop where
  distinct : s.visited.Nodup
  path : s.path <+ s.visited
  found : ∀ c ∈ s.found, c.reverse <+ s.visited

theorem InOrder.start {s : Search} (h : InOrder s) (hv : v ∉ s.visited) :
    InOrder (s.start l.targets v) where
  distinct := List.nodup_cons.2 ⟨hv, h.distinct⟩
  path := List.singleton_sublist.2 List.mem_cons_self
  found := fun c hc => (h.found c hc).cons v

theorem InOrder.move {s s' : Search} (h : InOrder s) (m : Search.Move l.targets s s') :
    InOrder s' := by
  cases m with
  | leave v outer => exact ⟨h.distinct, (List.sublist_cons_self v _).trans h.path, h.found⟩
  | close v t ts outer visited found ht =>
    refine ⟨h.distinct, h.path, fun c hc => ?_⟩
    rcases List.mem_cons.1 hc with rfl | hc
    · exact (Search.reverse_cycleAt_prefix ht).sublist.trans h.path
    · exact h.found c hc
  | pass => exact ⟨h.distinct, h.path, h.found⟩
  | enter v t ts outer visited found ht hv =>
    exact ⟨List.nodup_cons.2 ⟨hv, h.distinct⟩, h.path.cons_cons t,
      fun c hc => (h.found c hc).cons t⟩

theorem inOrder_search (l : Links) : InOrder l.search :=
  l.search_induction InOrder ⟨List.nodup_nil, List.nil_sublist _, by simp [Search.initial]⟩
    (fun _ _ _ _ hv h => h.start hv) (fun _ _ h m => h.move m)

/-- Two cycles through the same nodes are the same, for both stand in the order of entering. -/
theorem eq_of_isRotated {c d : List Int} (hc : c ∈ l.cycles) (hd : d ∈ l.cycles) (h : c ~r d) :
    c = d := by
  rw [cycles_eq_found, List.mem_reverse] at hc hd
  obtain ⟨distinct, -, found⟩ := l.inOrder_search
  let entered := l.search.visited.idxOf
  have hentered : l.search.visited.Pairwise fun a b => entered a < entered b := by
    refine List.pairwise_iff_getElem.2 fun i j hi hj hij => ?_
    show l.search.visited.idxOf _ < l.search.visited.idxOf _
    rwa [distinct.idxOf_getElem, distinct.idxOf_getElem]
  have hirrefl : Std.Irrefl fun a b => entered a < entered b := ⟨fun a => lt_irrefl _⟩
  have hantisymm : Std.Antisymm fun a b => entered a < entered b :=
    ⟨fun a b hab hba => absurd hba (lt_asymm hab)⟩
  have hrev : c.reverse = d.reverse := by
    refine (hentered.sublist (found c hc)).eq_of_mem_iff (hentered.sublist (found d hd)) fun v => ?_
    rw [List.mem_reverse, List.mem_reverse, h.mem_iff]
  exact List.reverse_inj.1 hrev

/-! ## Counting -/

theorem count_targets (l : Links) (u v : Int) : (l.targets u).count v = l.edges.count (u, v) := by
  unfold targets
  rw [List.count_filterMap, List.count_eq_countP]
  refine List.countP_congr fun e _ => ?_
  obtain ⟨a, b⟩ := e
  by_cases ha : a = u <;> simp [ha]

/-- The cycles that edges from `u` to `v` close are all the same, and there are as many as edges, or
none. -/
theorem exists_closedBy_eq (l : Links) (u v : Int) :
    ∃ c n, closedBy l.cycles u v = List.replicate n c ∧ (n = 0 ∨ n = l.edges.count (u, v)) := by
  have hpath : u ∉ l.search.path := by simp [Search.path, l.frames_search]
  obtain ⟨c, n, hclosed, hn⟩ := l.counted_search.uniform u hpath v
  rw [count_targets] at hn
  refine ⟨c, n, ?_, hn⟩
  rw [cycles_eq_found, closedBy_reverse, hclosed, List.reverse_replicate]

theorem length_closedBy_le (l : Links) (u v : Int) :
    (closedBy l.cycles u v).length ≤ l.edges.count (u, v) := by
  obtain ⟨c, n, hclosed, hn⟩ := l.exists_closedBy_eq u v
  rw [hclosed, List.length_replicate]
  omega

theorem exists_ends {c : List Int} (hc : c ∈ l.cycles) :
    ∃ u v, c.getLast? = some u ∧ c.head? = some v := by
  have hne := (isCycle_of_mem_cycles hc).nonempty
  exact ⟨_, _, List.getLast?_eq_some_getLast hne, List.head?_eq_some_head hne⟩

/-- Each cycle has an edge of its own that closes it. -/
theorem length_cycles_le (l : Links) : l.cycles.length ≤ l.edges.length := by
  let ends (c : List Int) : Option Int × Option Int := (c.getLast?, c.head?)
  let edge (e : Int × Int) : Option Int × Option Int := (some e.1, some e.2)
  have hinj : Function.Injective edge := by
    rintro ⟨a, b⟩ ⟨c, d⟩ h
    simpa [edge] using h
  have hsub : l.cycles.map ends <+~ l.edges.map edge := by
    rw [List.subperm_ext_iff]
    intro x hx
    obtain ⟨c, hc, rfl⟩ := List.mem_map.1 hx
    obtain ⟨u, v, hu, hv⟩ := exists_ends hc
    have hends : ends c = edge (u, v) := by simp [ends, edge, hu, hv]
    have hcount : (l.cycles.map ends).count (ends c) = (closedBy l.cycles u v).length := by
      rw [List.count_eq_countP, List.countP_map, closedBy, ← List.countP_eq_length_filter]
      refine List.countP_congr fun d _ => ?_
      simp [ends, hu, hv, and_comm]
    rw [hcount, hends, List.count_map_of_injective _ _ hinj]
    exact l.length_closedBy_le u v
  simpa using hsub.length_le

/-- Without parallel edges no cycle is found twice, not even from another of its nodes. -/
theorem pairwise_not_isRotated (h : l.edges.Nodup) : l.cycles.Pairwise fun c d => ¬ c ~r d := by
  have hnodup : l.cycles.Nodup := by
    rw [List.nodup_iff_count_le_one]
    intro c
    by_cases hc : c ∈ l.cycles
    · obtain ⟨u, v, hu, hv⟩ := exists_ends hc
      calc l.cycles.count c = (closedBy l.cycles u v).count c := by
            rw [closedBy, List.count_filter (by simp [hu, hv])]
        _ ≤ (closedBy l.cycles u v).length := List.count_le_length
        _ ≤ l.edges.count (u, v) := l.length_closedBy_le u v
        _ ≤ 1 := List.nodup_iff_count_le_one.1 h (u, v)
    · rw [List.count_eq_zero_of_not_mem hc]
      exact Nat.zero_le 1
  exact hnodup.imp_of_mem fun hc hd hne hrot => hne (eq_of_isRotated hc hd hrot)

end ImportAtlas.Links

namespace ImportAtlas.Graph

variable {τ : Type}

/-- The cycles that begin with one node and end with another are all the same, and there are as many
of them as edges that close them, or none. So there are at most as many cycles as edges, and without
parallel edges no two cycles are rotations of each other. -/
theorem cycles_counted_by_closing_edges (g : Graph τ) :
    (∀ u v, let closed := g.cycles.filter fun c => c.head? = some v ∧ c.getLast? = some u
      (∀ c ∈ closed, ∀ d ∈ closed, c = d) ∧
        (closed.length = 0 ∨
          closed.length = g.edges.countP fun e => e.source = u ∧ e.target = v)) ∧
      g.cycles.length ≤ g.edges.length ∧
      ((g.edges.map fun e => (e.source, e.target)).Nodup →
        g.cycles.Pairwise fun c d => ¬ c ~r d) := by
  refine ⟨fun u v => ?_, ?_, fun h => Links.pairwise_not_isRotated h⟩
  · obtain ⟨c, n, hclosed, hn⟩ := g.links.exists_closedBy_eq u v
    have hedges : g.links.edges.count (u, v) =
        g.edges.countP fun e => e.source = u ∧ e.target = v := by
      rw [links, List.count_eq_countP, List.countP_map]
      refine List.countP_congr fun e _ => ?_
      simp
    rw [hedges] at hn
    have hclosed : (g.cycles.filter fun c => c.head? = some v ∧ c.getLast? = some u) =
        List.replicate n c := hclosed
    rw [hclosed]
    intro closed
    refine ⟨fun d hd d' hd' => ?_, by simpa [closed] using hn⟩
    rw [List.eq_of_mem_replicate hd, List.eq_of_mem_replicate hd']
  · have hle := g.links.length_cycles_le
    rwa [show g.links.edges.length = g.edges.length from List.length_map _] at hle

/-- Three files that import each other in turn, the second of which imports the first as well. -/
def twoWaysBack : Graph String where
  nodes := [⟨0, "a.ts", "src/a.ts", "other", 1, 0⟩, ⟨1, "b.ts", "src/b.ts", "other", 2, 0⟩,
    ⟨2, "c.ts", "src/c.ts", "other", 1, 0⟩]
  edges := [⟨0, 1, "b", "./b", 1⟩, ⟨1, 2, "c", "./c", 1⟩, ⟨1, 0, "a", "./a", 2⟩,
    ⟨2, 0, "a", "./a", 1⟩]

theorem twoWaysBack_counted :
    (twoWaysBack.edges.map fun e => (e.source, e.target)).Nodup ∧
      twoWaysBack.cycles = [[0, 1, 2], [0, 1]] ∧
      twoWaysBack.cycles.length ≤ twoWaysBack.edges.length ∧
      twoWaysBack.cycles.Pairwise fun c d => ¬ c ~r d := by
  have hedges : (twoWaysBack.edges.map fun e => (e.source, e.target)).Nodup := by decide
  obtain ⟨-, hle, hrotated⟩ := twoWaysBack.cycles_counted_by_closing_edges
  exact ⟨hedges, by decide, hle, hrotated hedges⟩

end ImportAtlas.Graph
