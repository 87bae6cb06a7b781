import ImportAtlas.Proofs.Search.Soundness
import Mathlib.Computability.StateTransition

/-!
# The search as a recursion

`explore` is the depth-first search written as a recursion, with the path in walking order. Every
call has fewer edges ahead of it, so it ends. `unboundedCycles` is the search over frames without
its bound on the number of steps. The frames below the innermost one are the calls that wait, so a
call of `explore` is a run of moves that ends where those frames are on top again.
-/

namespace ImportAtlas.Links

/-! ## The two searches -/

/-- What a recursive search has learnt: the nodes reached and the cycles found, in order. -/
structure Known where
  visited : List Int
  cycles : List (List Int)

/-- What may be known later: no node is forgotten. -/
abbrev Known.Later (k : Known) := { k' : Known // k.visited ⊆ k'.visited }

/-- How many edges leave nodes that were not reached. -/
def unreached (l : Links) (visited : List Int) : Nat :=
  (l.edges.filter fun e => e.1 ∉ visited).length

theorem unreached_le (l : Links) {visited visited' : List Int} (h : visited ⊆ visited') :
    l.unreached visited' ≤ l.unreached visited := by
  refine (List.monotone_filter_right l.edges fun e he => ?_).length_le
  simp only [decide_eq_true_eq] at he ⊢
  exact fun hmem => he (h hmem)

/-- The edges of a new node are no longer among them. -/
theorem unreached_cons (l : Links) {t : Int} {visited : List Int} (ht : t ∉ visited) :
    l.unreached (t :: visited) + (l.targets t).length = l.unreached visited := by
  unfold unreached targets
  induction l.edges with
  | nil => rfl
  | cons e es ih =>
    by_cases he : e.1 = t
    · simp only [he, ht, List.filter_cons, List.filterMap_cons, List.mem_cons] at ih ⊢
      grind
    · simp only [he, List.filter_cons, List.filterMap_cons, List.mem_cons] at ih ⊢
      grind

/-- A call for a new node has fewer edges ahead of it. -/
theorem unreached_enter_lt (l : Links) {t : Int} {visited : List Int} (ht : t ∉ visited)
    (ts : List Int) :
    l.unreached (t :: visited) + (l.targets t).length < l.unreached visited + (t :: ts).length := by
  rw [l.unreached_cons ht, List.length_cons]
  omega

/-- So has what follows that call. -/
theorem unreached_rest_lt (l : Links) {t : Int} {visited visited' : List Int}
    (h : t :: visited ⊆ visited') (ts : List Int) :
    l.unreached visited' + ts.length < l.unreached visited + (t :: ts).length := by
  have hle := l.unreached_le (List.cons_subset.1 h).2
  rw [List.length_cons]
  omega

/-- Follows the given targets of the last node of the path. -/
def explore (l : Links) (path : List Int) (k : Known) : List Int → k.Later
  | [] => ⟨k, List.Subset.refl _⟩
  | t :: ts =>
    if t ∈ path then
      l.explore path { k with cycles := k.cycles ++ [path.dropWhile (· ≠ t)] } ts
    else if t ∈ k.visited then l.explore path k ts
    else
      let inner := l.explore (path ++ [t]) { k with visited := t :: k.visited } (l.targets t)
      let outer := l.explore path inner.1 ts
      ⟨outer.1, List.Subset.trans (List.cons_subset.1 inner.2).2 outer.2⟩
termination_by ts => l.unreached k.visited + ts.length
decreasing_by
  · exact Nat.lt_succ_self _
  · exact Nat.lt_succ_self _
  · exact l.unreached_enter_lt ‹t ∉ k.visited› ts
  · exact l.unreached_rest_lt inner.2 ts

/-- Explores from a node unless it was reached before. -/
def exploreRoot (l : Links) (k : Known) (v : Int) : Known :=
  if v ∈ k.visited then k
  else (l.explore [v] { k with visited := v :: k.visited } (l.targets v)).1

/-- The cycles that the recursive search finds, in order. -/
def recursiveCycles (l : Links) : List (List Int) := (l.nodes.foldl l.exploreRoot ⟨[], []⟩).cycles

/-- Searches over frames from a node, however many steps it takes, unless it was reached before. -/
def Search.loopRoot (next : Int → List Int) (s : Search) (v : Int) : Part Search :=
  if v ∈ s.visited then .some s else StateTransition.eval (step next) (s.start next v)

/-- The cycles that the search over frames finds when nothing bounds its steps. -/
def unboundedCycles (l : Links) : Part (List (List Int)) := do
  let s ← l.nodes.foldlM (Search.loopRoot fun v => (l.adjacency.lookup v).getD []) Search.initial
  return s.found.reverse

/-! ## The search over frames ends -/

namespace Search

variable {next : Int → List Int}

/-- A run of moves to an empty path is the whole search. -/
theorem eval_of_star {s s' : Search} (h : Relation.ReflTransGen (Move next) s s')
    (hf : s'.frames = []) : StateTransition.eval (step next) s = .some s' := by
  refine Part.eq_some_iff.2 (StateTransition.mem_eval.2 ⟨?_, step_eq_none_iff.2 hf⟩)
  exact Relation.ReflTransGen.mono (fun _ _ m => step_eq_some_iff.2 m) _ _ h

theorem star_run (fuel : Nat) (s : Search) :
    Relation.ReflTransGen (Move next) s (run next fuel s) :=
  run_induction (Relation.ReflTransGen (Move next) s) (fun _ _ h m => h.tail m) fuel .refl

end Search

theorem eval_start (l : Links) (s : Search) (v : Int) :
    StateTransition.eval (Search.step l.targets) (s.start l.targets v) =
      .some (Search.run l.targets l.stepBound (s.start l.targets v)) :=
  Search.eval_of_star (Search.star_run _ _)
    (frames_run _ (l.pending_start s v) (l.remaining_start_le s v))

theorem loopRoot_eq (l : Links) (s : Search) (v : Int) :
    Search.loopRoot l.targets s v = pure (Search.root l.targets l.stepBound s v) := by
  unfold Search.loopRoot Search.root
  split
  · rfl
  · exact l.eval_start s v

theorem unboundedCycles_eq (l : Links) : l.unboundedCycles = .some l.cycles := by
  have hnext : (fun v => (l.adjacency.lookup v).getD []) = l.targets := funext l.lookup_adjacency
  have hroot : Search.loopRoot l.targets =
      fun s v => pure (Search.root l.targets l.stepBound s v) :=
    funext fun s => funext fun v => l.loopRoot_eq s v
  unfold unboundedCycles
  rw [hnext, hroot, List.foldlM_pure, cycles_eq_found, pure_bind]
  rfl

/-! ## A call is a run of moves -/

namespace Search

/-- On a simple path the first place of a node is its only one. -/
theorem dropWhile_reverse {t : Int} {path : List Int} (ht : t ∈ path) (simple : path.Nodup) :
    path.reverse.dropWhile (· ≠ t) = cycleAt t path := by
  obtain ⟨outer, h⟩ := takeWhile_append_singleton_prefix ht
  have hout : t ∉ outer := by
    intro hmem
    rw [← h, List.append_assoc] at simple
    have := (List.nodup_append.1 simple).2.1
    exact (List.nodup_cons.1 this).1 hmem
  have hrev : path.reverse = outer.reverse ++ cycleAt t path := by
    conv_lhs => rw [← h]
    simp [cycleAt]
  rw [hrev, List.dropWhile_append_of_pos]
  · simp [cycleAt]
  · intro u hu
    simpa using fun (e : u = t) => hout (e ▸ List.mem_reverse.1 hu)

end Search

/-- The search over the given frames that has learnt as much. -/
def Known.over (k : Known) (frames : List Frame) : Search := ⟨frames, k.visited, k.cycles.reverse⟩

/-- A call of the recursion is a run of moves that takes the innermost frame off and leaves the
others as they are. The induction is on the calls. -/
theorem star_explore (l : Links) (path : List Int) (k : Known) (ts : List Int) (v : Int)
    (outer : List Frame) (hpath : path = (v :: Search.nodesOf outer).reverse)
    (simple : (v :: Search.nodesOf outer).Nodup) :
    Relation.ReflTransGen (Search.Move l.targets) (k.over (⟨v, ts⟩ :: outer))
      ((l.explore path k ts).1.over outer) := by
  induction path, k, ts using explore.induct l generalizing v outer with
  | case1 path k =>
    rw [explore]
    exact .single (.leave v outer k.visited k.cycles.reverse)
  | case2 path k t ts ht ih =>
    have hmem : t ∈ v :: Search.nodesOf outer := by
      rw [hpath] at ht
      exact List.mem_reverse.1 ht
    have hcycle : path.dropWhile (· ≠ t) = Search.cycleAt t (v :: Search.nodesOf outer) := by
      rw [hpath]
      exact Search.dropWhile_reverse hmem simple
    have star := ih v outer hpath simple
    rw [explore, if_pos ht]
    refine .head ?_ star
    rw [hcycle, Known.over, Known.over, List.reverse_append]
    exact .close v t ts outer k.visited k.cycles.reverse hmem
  | case3 path k t ts ht hv ih =>
    have hmem : t ∉ v :: Search.nodesOf outer := by
      rw [hpath] at ht
      exact fun h => ht (List.mem_reverse.2 h)
    rw [explore, if_neg ht, if_pos hv]
    exact .head (.pass v t ts outer k.visited k.cycles.reverse hmem hv) (ih v outer hpath simple)
  | case4 path k t ts ht hv inner ihInner ihRest =>
    have hmem : t ∉ v :: Search.nodesOf outer := by
      rw [hpath] at ht
      exact fun h => ht (List.mem_reverse.2 h)
    rw [explore, if_neg ht, if_neg hv]
    -- the call for the new node returns to the frame of `v`, whose other targets follow
    have hcall := ihInner t (⟨v, ts⟩ :: outer) (by rw [hpath]; simp)
      (List.nodup_cons.2 ⟨hmem, simple⟩)
    exact .head (.enter v t ts outer k.visited k.cycles.reverse hmem hv)
      (hcall.trans (ihRest v outer hpath simple))

theorem exploreRoot_over (l : Links) (k : Known) (v : Int) :
    Search.root l.targets l.stepBound (k.over []) v = (l.exploreRoot k v).over [] := by
  unfold exploreRoot Search.root
  by_cases h : v ∈ k.visited
  · rw [if_pos h]
    exact if_pos h
  · have star := l.star_explore [v] { k with visited := v :: k.visited } (l.targets v) v [] rfl
      (List.nodup_singleton v)
    have heval := (Search.eval_of_star star rfl).symm.trans (l.eval_start (k.over []) v)
    rw [if_neg h]
    exact (if_neg h).trans (Part.some_injective heval).symm

theorem recursiveCycles_eq (l : Links) : l.recursiveCycles = l.cycles := by
  have hfold : l.nodes.foldl (Search.root l.targets l.stepBound) ((⟨[], []⟩ : Known).over []) =
      (l.nodes.foldl l.exploreRoot ⟨[], []⟩).over [] :=
    List.foldl_hom (Known.over · []) fun k v => l.exploreRoot_over k v
  have hsearch : l.search = (l.nodes.foldl l.exploreRoot ⟨[], []⟩).over [] := hfold
  rw [cycles_eq_found, hsearch]
  exact (List.reverse_reverse _).symm

end ImportAtlas.Links

namespace ImportAtlas.Graph

variable {τ : Type}

/-- The search over frames ends without a bound on its steps, and it gives the reported cycles in
the order in which they are reported; so does the recursive search. -/
theorem cycles_eq_recursive_search (g : Graph τ) :
    g.links.unboundedCycles = .some g.cycles ∧ g.links.recursiveCycles = g.cycles :=
  ⟨g.links.unboundedCycles_eq, g.links.recursiveCycles_eq⟩

end ImportAtlas.Graph
