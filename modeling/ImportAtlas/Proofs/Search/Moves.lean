import ImportAtlas.Graph.Cycle
import Mathlib.Algebra.BigOperators.Group.Finset.Basic
import Mathlib.Algebra.BigOperators.Group.Finset.Piecewise
import Mathlib.Algebra.GroupWithZero.Nat
import Mathlib.Algebra.Order.BigOperators.Group.Finset
import Mathlib.Data.List.Chain
import Mathlib.Logic.Relation

/-!
# Moves of the cycle search

`Search.Move` lists what one step can do: leave a node, close a cycle, pass over a node that is
done, or enter a new one. `Links.remaining` is the work that is left, which every move lowers by
one, so the bound on the number of steps is never reached and each search ends with an empty path.
`search_induction` packages the induction over all moves of all searches.
-/

namespace ImportAtlas.Links

/-- There is an edge from `u` to `v`. -/
def Adjacent (l : Links) (u v : Int) : Prop := (u, v) ∈ l.edges

/-- `v` can be reached along edges from a listed node. -/
def Reached (l : Links) (v : Int) : Prop :=
  ∃ r ∈ l.nodes, Relation.ReflTransGen l.Adjacent r v

theorem Reached.step {l : Links} {u v : Int} (h : l.Reached u) (e : l.Adjacent u v) :
    l.Reached v := by
  obtain ⟨r, hr, hu⟩ := h
  exact ⟨r, hr, hu.tail e⟩

/-! ## The out-edges of a node -/

theorem mem_targets {l : Links} {u v : Int} : v ∈ l.targets u ↔ l.Adjacent u v := by
  unfold targets Adjacent
  rw [List.mem_filterMap]
  constructor
  · rintro ⟨⟨a, b⟩, he, h⟩
    split at h
    · next ha => cases h; subst ha; exact he
    · cases h
  · intro h
    exact ⟨(u, v), h, by simp⟩

theorem mem_distinct {v : Int} {vs : List Int} : v ∈ distinct vs ↔ v ∈ vs := by
  induction vs with
  | nil => simp [distinct]
  | cons u vs ih =>
    by_cases h : v = u
    · simp [distinct, h]
    · simp [distinct, h, ih]

theorem lookup_map_self {β : Type} (f : Int → β) (vs : List Int) (v : Int) :
    (vs.map fun u => (u, f u)).lookup v = if v ∈ vs then some (f v) else none := by
  induction vs with
  | nil => simp
  | cons u vs ih =>
    by_cases h : v = u
    · subst h; simp
    · have hb : (v == u) = false := beq_false_of_ne h
      simp [List.lookup_cons, hb, ih, h]

/-- Looking a node up among the out-edges of all gives its own, also where it has no entry. -/
theorem lookup_adjacency (l : Links) (v : Int) : (l.adjacency.lookup v).getD [] = l.targets v := by
  unfold adjacency
  rw [lookup_map_self]
  split
  · rfl
  · next h =>
    have hv : ∀ t, t ∉ l.targets v := by
      intro t ht
      rw [mem_targets] at ht
      rw [mem_distinct, List.mem_append] at h
      exact h (.inr (List.mem_map.2 ⟨(v, t), ht, rfl⟩))
    exact (List.eq_nil_iff_forall_not_mem.2 hv).symm

namespace Search

/-- Nothing is reached yet. -/
def initial : Search := ⟨[], [], []⟩

/-- A search that begins at `v`. -/
def start (next : Int → List Int) (s : Search) (v : Int) : Search :=
  { s with frames := [⟨v, next v⟩], visited := v :: s.visited }

end Search

/-- All searches from all nodes. -/
def search (l : Links) : Search :=
  l.nodes.foldl (Search.root l.targets l.stepBound) Search.initial

theorem cycles_eq_found (l : Links) : l.cycles = l.search.found.reverse := by
  have h : (fun v => (l.adjacency.lookup v).getD []) = l.targets := funext l.lookup_adjacency
  unfold cycles search
  rw [← h]
  rfl

/-! ## One step -/

namespace Search

/-- The nodes of some frames. -/
abbrev nodesOf (frames : List Frame) : List Int := frames.map (·.node)

/-- What one step can do. -/
inductive Move (next : Int → List Int) : Search → Search → Prop where
  /-- All edges of the innermost node are followed. -/
  | leave (v : Int) (outer : List Frame) (visited : List Int) (found : List (List Int)) :
      Move next ⟨⟨v, []⟩ :: outer, visited, found⟩ ⟨outer, visited, found⟩
  /-- An edge back to the path. -/
  | close (v t : Int) (ts : List Int) (outer : List Frame) (visited : List Int)
      (found : List (List Int)) (ht : t ∈ v :: nodesOf outer) :
      Move next ⟨⟨v, t :: ts⟩ :: outer, visited, found⟩
        ⟨⟨v, ts⟩ :: outer, visited, cycleAt t (v :: nodesOf outer) :: found⟩
  /-- An edge to a node that was left before. -/
  | pass (v t : Int) (ts : List Int) (outer : List Frame) (visited : List Int)
      (found : List (List Int)) (ht : t ∉ v :: nodesOf outer) (hv : t ∈ visited) :
      Move next ⟨⟨v, t :: ts⟩ :: outer, visited, found⟩ ⟨⟨v, ts⟩ :: outer, visited, found⟩
  /-- An edge to a new node. -/
  | enter (v t : Int) (ts : List Int) (outer : List Frame) (visited : List Int)
      (found : List (List Int)) (ht : t ∉ v :: nodesOf outer) (hv : t ∉ visited) :
      Move next ⟨⟨v, t :: ts⟩ :: outer, visited, found⟩
        ⟨⟨t, next t⟩ :: ⟨v, ts⟩ :: outer, t :: visited, found⟩

variable {next : Int → List Int}

theorem step_eq_some_iff {s s' : Search} : s.step next = some s' ↔ Move next s s' := by
  constructor
  · intro h
    obtain ⟨frames, visited, found⟩ := s
    rcases frames with _ | ⟨⟨v, _ | ⟨t, ts⟩⟩, outer⟩
    · simp [step] at h
    · simp only [step, Option.some.injEq] at h
      subst h
      exact .leave v outer visited found
    · simp only [step, path, List.map_cons] at h
      split at h
      · next ht => cases h; exact .close v t ts outer visited found ht
      · next ht =>
        split at h
        · next hv => cases h; exact .pass v t ts outer visited found ht hv
        · next hv => cases h; exact .enter v t ts outer visited found ht hv
  · intro h
    cases h with
    | leave => rfl
    | close v t ts outer visited found ht => simp only [step, path, List.map_cons]; rw [if_pos ht]
    | pass v t ts outer visited found ht hv =>
      simp only [step, path, List.map_cons]; rw [if_neg ht, if_pos hv]
    | enter v t ts outer visited found ht hv =>
      simp only [step, path, List.map_cons]; rw [if_neg ht, if_neg hv]

theorem step_eq_none_iff {s : Search} : s.step next = none ↔ s.frames = [] := by
  obtain ⟨frames, visited, found⟩ := s
  rcases frames with _ | ⟨⟨v, _ | ⟨t, ts⟩⟩, outer⟩
  · simp [step]
  · simp [step]
  · simp only [step, reduceCtorEq, iff_false]
    split <;> [skip; split] <;> simp

/-- What every move keeps is kept by a whole run. -/
theorem run_induction (P : Search → Prop) (move : ∀ s s', P s → Move next s s' → P s')
    (fuel : Nat) {s : Search} (h : P s) : P (run next fuel s) := by
  induction fuel generalizing s with
  | zero => exact h
  | succ fuel ih =>
    unfold run
    split
    · exact h
    · next s' hs => exact ih (move s s' h (step_eq_some_iff.1 hs))

/-- Nodes stay reached. -/
theorem Move.visited_subset {s s' : Search} (m : Move next s s') : s.visited ⊆ s'.visited := by
  cases m with
  | leave | close | pass => exact List.Subset.refl _
  | enter v t => exact List.subset_cons_self t _

theorem visited_subset_root (next : Int → List Int) (fuel : Nat) (s : Search) (v : Int) :
    v :: s.visited ⊆ (root next fuel s v).visited := by
  unfold root
  split
  · next h => exact List.cons_subset.2 ⟨h, List.Subset.refl _⟩
  · exact run_induction (fun s' => v :: s.visited ⊆ s'.visited)
      (fun _ _ h m => List.Subset.trans h m.visited_subset) fuel (List.Subset.refl _)

end Search

/-! ## The work that is left -/

/-- The nodes that some edge leads to. -/
def heads (l : Links) : Finset Int := (l.edges.map (·.2)).toFinset

theorem mem_heads {l : Links} {u v : Int} (h : v ∈ l.targets u) : v ∈ l.heads := by
  rw [mem_targets] at h
  exact List.mem_toFinset.2 (List.mem_map.2 ⟨(u, v), h, rfl⟩)

/-- One for each edge to follow and each node to leave, now or after it is entered. -/
def remaining (l : Links) (s : Search) : Nat :=
  (s.frames.map fun f => f.rest.length + 1).sum +
    ∑ u ∈ l.heads \ s.visited.toFinset, ((l.targets u).length + 1)

/-- The targets to be followed are targets of edges. -/
def Pending (l : Links) (s : Search) : Prop :=
  ∀ f ∈ s.frames, ∀ t ∈ f.rest, t ∈ l.targets f.node

theorem Pending.move {l : Links} {s s' : Search} (h : l.Pending s)
    (m : Search.Move l.targets s s') : l.Pending s' := by
  cases m with
  | leave v outer => exact fun f hf => h f (List.mem_cons_of_mem _ hf)
  | close v t ts outer | pass v t ts outer =>
    intro f hf u hu
    rcases List.mem_cons.1 hf with rfl | hf
    · exact h _ List.mem_cons_self u (List.mem_cons_of_mem _ hu)
    · exact h f (List.mem_cons_of_mem _ hf) u hu
  | enter v t ts outer =>
    intro f hf u hu
    rcases List.mem_cons.1 hf with rfl | hf
    · exact hu
    · rcases List.mem_cons.1 hf with rfl | hf
      · exact h _ List.mem_cons_self u (List.mem_cons_of_mem _ hu)
      · exact h f (List.mem_cons_of_mem _ hf) u hu

theorem pending_start (l : Links) (s : Search) (v : Int) : l.Pending (s.start l.targets v) := by
  intro f hf t ht
  rw [List.mem_singleton.1 hf] at ht ⊢
  exact ht

/-- Every move takes one off the work that is left. -/
theorem remaining_move {l : Links} {s s' : Search} (h : l.Pending s)
    (m : Search.Move l.targets s s') : l.remaining s' + 1 = l.remaining s := by
  cases m with
  | leave v outer => simp [remaining]; omega
  | close v t ts outer | pass v t ts outer => simp [remaining]; omega
  | enter v t ts outer visited found ht hv =>
    have hmem : t ∈ l.heads \ visited.toFinset := by
      rw [Finset.mem_sdiff, List.mem_toFinset]
      exact ⟨mem_heads (h ⟨v, t :: ts⟩ List.mem_cons_self t List.mem_cons_self), hv⟩
    have hsum := Finset.add_sum_erase _ (fun u => (l.targets u).length + 1) hmem
    have hset : l.heads \ (t :: visited).toFinset = (l.heads \ visited.toFinset).erase t := by
      ext u
      simp only [List.toFinset_cons, Finset.mem_sdiff, Finset.mem_insert, Finset.mem_erase]
      tauto
    simp only [remaining, hset, List.map_cons, List.sum_cons, List.length_cons]
    omega

/-- The edges from different nodes are different edges. -/
theorem sum_targets_le (l : Links) (S : Finset Int) :
    ∑ u ∈ S, (l.targets u).length ≤ l.edges.length := by
  obtain ⟨nodes, edges⟩ := l
  induction edges with
  | nil => simp [targets]
  | cons e edges ih =>
    have hlen : ∀ u, (targets ⟨nodes, e :: edges⟩ u).length =
        (if e.1 = u then 1 else 0) + (targets ⟨nodes, edges⟩ u).length := by
      intro u
      by_cases h : e.1 = u <;> simp [targets, h, Nat.add_comm]
    have hone : (∑ u ∈ S, if e.1 = u then 1 else 0) ≤ 1 := by
      rw [Finset.sum_ite_eq]
      split <;> omega
    calc ∑ u ∈ S, (targets ⟨nodes, e :: edges⟩ u).length
        = (∑ u ∈ S, if e.1 = u then 1 else 0) + ∑ u ∈ S, (targets ⟨nodes, edges⟩ u).length := by
          simp only [hlen, Finset.sum_add_distrib]
      _ ≤ 1 + edges.length := Nat.add_le_add hone ih
      _ = (e :: edges).length := by rw [List.length_cons, Nat.add_comm]

theorem card_heads_le (l : Links) : l.heads.card ≤ l.edges.length := by
  simpa [heads] using List.toFinset_card_le (l.edges.map (·.2))

theorem remaining_start_le (l : Links) (s : Search) (v : Int) :
    l.remaining (s.start l.targets v) ≤ l.stepBound := by
  let fresh := l.heads \ (v :: s.visited).toFinset
  have hv : v ∉ fresh := by simp [fresh]
  have hedges := l.sum_targets_le (insert v fresh)
  rw [Finset.sum_insert hv] at hedges
  have hcard : fresh.card ≤ l.heads.card := Finset.card_le_card Finset.sdiff_subset
  have hheads := l.card_heads_le
  have hsum : l.remaining (s.start l.targets v) =
      (l.targets v).length + 1 + (∑ u ∈ fresh, (l.targets u).length + fresh.card) := by
    simp [remaining, Search.start, fresh, Finset.sum_add_distrib]
  rw [hsum]
  unfold stepBound
  omega

/-- A run that may take as many steps as there is work left ends with an empty path. -/
theorem frames_run {l : Links} (fuel : Nat) {s : Search} (h : l.Pending s)
    (hfuel : l.remaining s ≤ fuel) : (Search.run l.targets fuel s).frames = [] := by
  induction fuel generalizing s with
  | zero =>
    have h0 : (s.frames.map fun f => f.rest.length + 1).sum = 0 := by
      unfold remaining at hfuel; omega
    cases hf : s.frames with
    | nil => exact hf
    | cons f fs => rw [hf] at h0; simp at h0
  | succ fuel ih =>
    unfold Search.run
    split
    · next hs => exact Search.step_eq_none_iff.1 hs
    · next s' hs =>
      have m := Search.step_eq_some_iff.1 hs
      exact ih (h.move m) (by have := remaining_move h m; omega)

theorem frames_root (l : Links) (s : Search) (v : Int) (h : s.frames = []) :
    (Search.root l.targets l.stepBound s v).frames = [] := by
  unfold Search.root
  split
  · exact h
  · exact frames_run _ (l.pending_start s v) (l.remaining_start_le s v)

/-! ## All searches -/

/-- What holds before the first search, at the start of each and after every move holds at the end
of them all. -/
theorem search_induction (l : Links) (P : Search → Prop) (init : P Search.initial)
    (start : ∀ s v, v ∈ l.nodes → s.frames = [] → v ∉ s.visited → P s → P (s.start l.targets v))
    (move : ∀ s s', P s → Search.Move l.targets s s' → P s') : P l.search := by
  have go : ∀ vs ⊆ l.nodes, ∀ s : Search, P s → s.frames = [] →
      P (vs.foldl (Search.root l.targets l.stepBound) s) := by
    intro vs
    induction vs with
    | nil => exact fun _ s hs _ => hs
    | cons v vs ih =>
      intro hsub s hs hf
      obtain ⟨hv, hvs⟩ := List.cons_subset.1 hsub
      rw [List.foldl_cons]
      refine ih hvs _ ?_ (frames_root l s v hf)
      unfold Search.root
      split
      · exact hs
      · next hnew => exact Search.run_induction P move _ (start s v hv hf hnew hs)
  exact go l.nodes (List.Subset.refl _) Search.initial init rfl

theorem frames_search (l : Links) : l.search.frames = [] := by
  have go : ∀ (vs : List Int) (s : Search), s.frames = [] →
      (vs.foldl (Search.root l.targets l.stepBound) s).frames = [] := by
    intro vs
    induction vs with
    | nil => exact fun s hf => hf
    | cons v vs ih => exact fun s hf => ih _ (frames_root l s v hf)
  exact go l.nodes Search.initial rfl

/-- Every listed node is reached. -/
theorem nodes_subset_visited (l : Links) : l.nodes ⊆ l.search.visited := by
  have go : ∀ (vs : List Int) (s : Search),
      vs ++ s.visited ⊆ (vs.foldl (Search.root l.targets l.stepBound) s).visited := by
    intro vs
    induction vs with
    | nil => exact fun s => List.Subset.refl _
    | cons v vs ih =>
      intro s u hu
      refine ih _ (List.mem_append.2 ?_)
      have hroot := Search.visited_subset_root l.targets l.stepBound s v
      rcases List.mem_append.1 hu with hu | hu
      · rcases List.mem_cons.1 hu with rfl | hu
        · exact .inr (hroot List.mem_cons_self)
        · exact .inl hu
      · exact .inr (hroot (List.mem_cons_of_mem _ hu))
  exact fun v hv => go l.nodes Search.initial (List.mem_append_left _ hv)

end ImportAtlas.Links

/-! ## Graphs with labels -/

namespace ImportAtlas.Graph

variable {τ : Type}

/-- Some edge leads from node `u` to node `v`. -/
def Adjacent (g : Graph τ) (u v : Int) : Prop := ∃ e ∈ g.edges, e.source = u ∧ e.target = v

/-- Edges lead from some node of the list to `v`. -/
def Reached (g : Graph τ) (v : Int) : Prop :=
  ∃ n ∈ g.nodes, Relation.ReflTransGen g.Adjacent n.id v

theorem adjacent_links (g : Graph τ) : g.links.Adjacent = g.Adjacent := by
  funext u v
  simp [Links.Adjacent, links, Adjacent, Prod.ext_iff]

theorem reached_links (g : Graph τ) (v : Int) : g.links.Reached v ↔ g.Reached v := by
  unfold Links.Reached Reached
  rw [adjacent_links]
  simp [links]

end ImportAtlas.Graph
