import ImportAtlas.Proofs.Search.Soundness

/-!
# No cyclic region is missed

The nodes that a search has left are kept in the order in which it left them, last first. `Settled`
says of such an order that every edge of a node in it leads to a node left earlier or closes a cycle
that was found; `Followed` says the same of the edges already followed from the path, where an edge
may also lead one step inwards. At the end all nodes reached are left, so along a closed walk the
order cannot fall at every step, and the step at which it does not closes a cycle.
-/

namespace ImportAtlas.Links

/-- Some cycle begins with `v` and ends with `u`, so an edge from `u` to `v` closes it. -/
def Closes (cycles : List (List Int)) (u v : Int) : Prop :=
  ∃ c ∈ cycles, c.head? = some v ∧ c.getLast? = some u

theorem Closes.mono {cycles cycles' : List (List Int)} (hsub : cycles ⊆ cycles') {u v : Int}
    (h : Closes cycles u v) : Closes cycles' u v := by
  obtain ⟨c, hc, h⟩ := h
  exact ⟨c, hsub hc, h⟩

theorem closes_cycleAt {v t : Int} {path : List Int} (ht : t ∈ v :: path)
    (found : List (List Int)) : Closes (Search.cycleAt t (v :: path) :: found) v t :=
  ⟨_, List.mem_cons_self, Search.head?_cycleAt t _, Search.getLast?_cycleAt ht⟩

/-! ## Nodes that were left -/

/-- Every edge of a node closes a cycle or leads to a node left earlier. -/
def Settled (l : Links) (found : List (List Int)) : List Int → Prop
  | [] => True
  | u :: left => u ∉ left ∧ (∀ v, l.Adjacent u v → Closes found u v ∨ v ∈ left) ∧
      Settled l found left

theorem Settled.mono {l : Links} {found found' : List (List Int)} (hsub : found ⊆ found')
    {left : List Int} (h : l.Settled found left) : l.Settled found' left := by
  induction left with
  | nil => trivial
  | cons u left ih =>
    obtain ⟨hu, hedges, hleft⟩ := h
    exact ⟨hu, fun v e => (hedges v e).imp (·.mono hsub) id, ih hleft⟩

/-- An edge that closes no cycle leads further back in the order. -/
theorem Settled.idxOf_lt {l : Links} {found : List (List Int)} {left : List Int}
    (h : l.Settled found left) {u v : Int} (hu : u ∈ left) (e : l.Adjacent u v) :
    Closes found u v ∨ (v ∈ left ∧ left.idxOf u < left.idxOf v) := by
  induction left with
  | nil => cases hu
  | cons w left ih =>
    obtain ⟨hw, hedges, hleft⟩ := h
    by_cases huw : u = w
    · subst huw
      refine (hedges v e).imp id fun hv => ⟨List.mem_cons_of_mem _ hv, ?_⟩
      have hne : u ≠ v := fun heq => hw (heq ▸ hv)
      rw [List.idxOf_cons_self, List.idxOf_cons_ne _ hne]
      exact Nat.succ_pos _
    · have hul : u ∈ left := (List.mem_cons.1 hu).resolve_left huw
      refine (ih hleft hul).imp id fun ⟨hv, hlt⟩ => ⟨List.mem_cons_of_mem _ hv, ?_⟩
      have hne : w ≠ v := fun heq => hw (heq ▸ hv)
      rw [List.idxOf_cons_ne _ (Ne.symm huw), List.idxOf_cons_ne _ hne]
      exact Nat.succ_lt_succ hlt

/-! ## Nodes on the path -/

/-- Every edge of a node on the path is still to be followed, closes a cycle, or leads to a node
that was left or to the node `inner` that was entered from it. -/
def Followed (l : Links) (found : List (List Int)) (left : List Int) :
    Option Int → List Frame → Prop
  | _, [] => True
  | inner, f :: outer =>
    (∀ v, l.Adjacent f.node v → v ∈ f.rest ∨ Closes found f.node v ∨ v ∈ left ∨ inner = some v) ∧
      Followed l found left (some f.node) outer

theorem Followed.mono {l : Links} {found found' : List (List Int)} {left left' : List Int}
    (hfound : found ⊆ found') (hleft : left ⊆ left') {inner : Option Int} {frames : List Frame}
    (h : l.Followed found left inner frames) : l.Followed found' left' inner frames := by
  induction frames generalizing inner with
  | nil => trivial
  | cons f outer ih =>
    refine ⟨fun v e => ?_, ih h.2⟩
    rcases h.1 v e with hv | hv | hv | hv
    · exact .inl hv
    · exact .inr (.inl (hv.mono hfound))
    · exact .inr (.inr (.inl (hleft hv)))
    · exact .inr (.inr (.inr hv))

/-- When the innermost node is left, the edge to it leads to a node that was left. -/
theorem Followed.leave {l : Links} {found : List (List Int)} {left : List Int} {u : Int}
    {frames : List Frame} (h : l.Followed found left (some u) frames) :
    l.Followed found (u :: left) none frames := by
  cases frames with
  | nil => trivial
  | cons f outer =>
    refine ⟨fun v e => ?_, h.2.mono (List.Subset.refl _) (List.subset_cons_self u left)⟩
    rcases h.1 v e with hv | hv | hv | hv
    · exact .inl hv
    · exact .inr (.inl hv)
    · exact .inr (.inr (.inl (List.mem_cons_of_mem u hv)))
    · cases hv; exact .inr (.inr (.inl List.mem_cons_self))

/-- The edge that the innermost node follows next is settled. -/
theorem Followed.follow {l : Links} {found : List (List Int)} {left : List Int} {v t : Int}
    {ts : List Int} {outer : List Frame} {inner : Option Int}
    (h : l.Followed found left none (⟨v, t :: ts⟩ :: outer))
    (ht : Closes found v t ∨ t ∈ left ∨ inner = some t) :
    l.Followed found left inner (⟨v, ts⟩ :: outer) := by
  refine ⟨fun w e => ?_, h.2⟩
  rcases h.1 w e with hw | hw | hw | hw
  · rcases List.mem_cons.1 hw with rfl | hw
    · exact .inr ht
    · exact .inl hw
  · exact .inr (.inl hw)
  · exact .inr (.inr (.inl hw))
  · cases hw

/-! ## The invariant -/

/-- What the search keeps, with the nodes left so far. -/
structure Covers (l : Links) (s : Search) (left : List Int) : Prop where
  settled : l.Settled s.found left
  followed : l.Followed s.found left none s.frames
  split : ∀ v, v ∈ s.visited ↔ v ∈ s.path ∨ v ∈ left
  apart : ∀ v ∈ s.path, v ∉ left
  simple : s.path.Nodup
  /-- Cycles begin with nodes that were reached. -/
  begun : ∀ c ∈ s.found, ∀ v ∈ c.head?, v ∈ s.visited

theorem covers_initial (l : Links) : l.Covers Search.initial [] where
  settled := trivial
  followed := trivial
  split := by simp [Search.initial, Search.path]
  apart := by simp
  simple := List.nodup_nil
  begun := by simp [Search.initial]

theorem Covers.start {l : Links} {s : Search} {left : List Int} (h : l.Covers s left)
    (hframes : s.frames = []) {v : Int} (hv : v ∉ s.visited) :
    l.Covers (s.start l.targets v) left where
  settled := h.settled
  followed := ⟨fun w e => .inl (mem_targets.2 e), trivial⟩
  split := by
    intro u
    have hs := h.split u
    simp only [Search.path, hframes, List.map_nil, List.not_mem_nil, false_or] at hs
    simp [Search.start, Search.path, hs]
  apart := by
    intro u hu hleft
    rw [List.mem_singleton.1 hu] at hleft
    exact hv ((h.split v).2 (.inr hleft))
  simple := List.nodup_singleton v
  begun := fun c hc u hu => List.mem_cons_of_mem v (h.begun c hc u hu)

theorem Covers.move {l : Links} {s s' : Search} {left : List Int} (h : l.Covers s left)
    (m : Search.Move l.targets s s') : ∃ left', l.Covers s' left' := by
  cases m with
  | leave v outer visited found =>
    obtain ⟨hnew, hsimple⟩ := List.nodup_cons.1 h.simple
    refine ⟨v :: left, ⟨h.apart v List.mem_cons_self, ?_, h.settled⟩, h.followed.2.leave, ?_, ?_,
      hsimple, h.begun⟩
    · intro w e
      rcases h.followed.1 w e with hw | hw | hw | hw
      · cases hw
      · exact .inl hw
      · exact .inr hw
      · cases hw
    · intro u
      rw [h.split u]
      simp only [Search.path, List.map_cons, List.mem_cons]
      tauto
    -- the path is simple, so the node that is left is not on the rest of it
    · intro u hu hleft
      rcases List.mem_cons.1 hleft with rfl | hleft
      · exact hnew hu
      · exact h.apart u (List.mem_cons_of_mem v hu) hleft
  | close v t ts outer visited found ht =>
    have hsub := List.subset_cons_self (Search.cycleAt t (v :: Search.nodesOf outer)) found
    refine ⟨left, h.settled.mono hsub, ?_, h.split, h.apart, h.simple, ?_⟩
    · exact (h.followed.mono hsub (List.Subset.refl _)).follow (.inl (closes_cycleAt ht found))
    · intro c hc u hu
      rcases List.mem_cons.1 hc with rfl | hc
      · rw [Search.head?_cycleAt, Option.mem_some_iff] at hu
        subst hu
        exact (h.split t).2 (.inl ht)
      · exact h.begun c hc u hu
  | pass v t ts outer visited found ht hv =>
    -- a node that is done and not on the path was left before
    have hleft : t ∈ left := ((h.split t).1 hv).resolve_left ht
    exact ⟨left, h.settled, h.followed.follow (.inr (.inl hleft)), h.split, h.apart, h.simple,
      h.begun⟩
  | enter v t ts outer visited found ht hv =>
    have hleft : t ∉ left := fun hleft => hv ((h.split t).2 (.inr hleft))
    refine ⟨left, h.settled,
      ⟨fun w e => .inl (mem_targets.2 e), h.followed.follow (.inr (.inr rfl))⟩,
      ?_, ?_, List.nodup_cons.2 ⟨ht, h.simple⟩, ?_⟩
    · intro u
      have hs := h.split u
      simp only [Search.path, List.map_cons, List.mem_cons] at hs ⊢
      rw [hs]
      tauto
    · intro u hu
      rcases List.mem_cons.1 hu with rfl | hu
      · exact hleft
      · exact h.apart u hu
    · exact fun c hc u hu => List.mem_cons_of_mem t (h.begun c hc u hu)

theorem covers_search (l : Links) : ∃ left, l.Covers l.search left := by
  refine l.search_induction (fun s => ∃ left, l.Covers s left) ⟨[], l.covers_initial⟩ ?_ ?_
  · rintro s v - hf hv ⟨left, h⟩
    exact ⟨left, h.start hf hv⟩
  · rintro s s' ⟨left, h⟩ m
    exact h.move m

/-! ## Closed walks -/

/-- In the end all nodes that can be reached have been left. -/
theorem exists_settled_order (l : Links) :
    ∃ left, l.Settled l.cycles left ∧ ∀ v, l.Reached v → v ∈ left := by
  obtain ⟨left, h⟩ := l.covers_search
  have hall : ∀ v, v ∈ l.search.visited ↔ v ∈ left := by
    intro v
    rw [h.split v]
    simp [Search.path, l.frames_search]
  have hsub : l.search.found ⊆ l.cycles := by
    rw [cycles_eq_found]
    exact fun c hc => List.mem_reverse.2 hc
  refine ⟨left, h.settled.mono hsub, ?_⟩
  rintro v ⟨r, hr, walk⟩
  induction walk with
  | refl => exact (hall r).1 (l.nodes_subset_visited hr)
  | tail _ e ih =>
    rcases h.settled.idxOf_lt ih e with ⟨c, hc, hhead, -⟩ | ⟨hv, -⟩
    · exact (hall _).1 (h.begun c hc _ hhead)
    · exact hv

/-- A walk from a node that was left has a step that closes a cycle, or ends further back in the
order than it began. -/
theorem Settled.closing_or_lt {l : Links} {found : List (List Int)} {left : List Int}
    (h : l.Settled found left) (v : Int) (vs : List Int) (linked : (v :: vs).IsChain l.Adjacent)
    (hv : v ∈ left) :
    (∃ a b, [a, b] <:+: v :: vs ∧ Closes found a b) ∨
      ∀ w ∈ vs.getLast?, left.idxOf v < left.idxOf w := by
  induction vs generalizing v with
  | nil => exact .inr fun w hw => by cases hw
  | cons u vs ih =>
    obtain ⟨e, hrest⟩ := List.isChain_cons_cons.1 linked
    rcases h.idxOf_lt hv e with hclose | ⟨hu, hlt⟩
    · exact .inl ⟨v, u, ⟨[], vs, rfl⟩, hclose⟩
    · rcases ih u hrest hu with ⟨a, b, hab, hclose⟩ | hfurther
      · exact .inl ⟨a, b, hab.trans (List.suffix_cons v _).isInfix, hclose⟩
      · refine .inr fun w hw => ?_
        cases vs with
        | nil => cases hw; exact hlt
        | cons x xs => exact hlt.trans (hfurther w (by simpa using hw))

/-- Every closed walk that can be reached has a step that closes a cycle. -/
theorem exists_closing_step (l : Links) (v : Int) (vs : List Int)
    (linked : (v :: vs).IsChain l.Adjacent) (closed : vs.getLast? = some v)
    (reached : l.Reached v) :
    ∃ a b, [a, b] <:+: v :: vs ∧ Closes l.cycles a b := by
  obtain ⟨left, settled, hall⟩ := l.exists_settled_order
  rcases settled.closing_or_lt v vs linked (hall v reached) with hclose | hlt
  · exact hclose
  · exact absurd (hlt v closed) (Nat.lt_irrefl _)

/-- If edges begin at listed nodes only, no cycle is found exactly when there is none. -/
theorem cycles_eq_nil_iff {l : Links} (sources : ∀ u v, l.Adjacent u v → u ∈ l.nodes) :
    l.cycles = [] ↔ ¬ ∃ v, Relation.TransGen l.Adjacent v v := by
  constructor
  · rintro hnone ⟨v, hloop⟩
    obtain ⟨w, hvw, hwalk⟩ := Relation.TransGen.head'_iff.1 hloop
    obtain ⟨ws, hchain, hlast⟩ := List.exists_isChain_cons_of_relationReflTransGen hwalk
    have hclosed : (w :: ws).getLast? = some v := by
      rw [List.getLast?_eq_some_getLast (List.cons_ne_nil w ws), hlast]
    obtain ⟨a, b, -, c, hc, -⟩ := l.exists_closing_step v (w :: ws) (.cons_cons hvw hchain) hclosed
      ⟨v, sources v w hvw, .refl⟩
    rw [hnone] at hc
    cases hc
  · intro hacyclic
    refine List.eq_nil_iff_forall_not_mem.2 fun c hc => hacyclic ?_
    exact (isCycle_of_mem_cycles hc).exists_loop

end ImportAtlas.Links

namespace ImportAtlas.Graph

variable {τ : Type}

/-- On every closed walk along edges of the graph that starts at a node within reach of the listed
ones, some step closes a reported cycle: the cycle begins where the step ends and ends where it
begins. -/
theorem closed_walk_has_reported_step (g : Graph τ) (v : Int) (vs : List Int)
    (linked : (v :: vs).IsChain g.Adjacent) (closed : vs.getLast? = some v)
    (reached : g.Reached v) :
    ∃ a b, [a, b] <:+: v :: vs ∧ ∃ c ∈ g.cycles, c.head? = some b ∧ c.getLast? = some a := by
  rw [← adjacent_links] at linked
  exact g.links.exists_closing_step v vs linked closed ((g.reached_links v).2 reached)

/-- The loop at a node that is not listed, walked twice. -/
theorem mutualImports_loop_has_reported_step :
    mutualImports.Reached 7 ∧
      ∃ a b, [a, b] <:+: [7, 7, 7] ∧
        ∃ c ∈ mutualImports.cycles, c.head? = some b ∧ c.getLast? = some a := by
  have toLoop : mutualImports.Adjacent 1 7 := ⟨⟨1, 7, "c", "./c", 2⟩, by decide, rfl, rfl⟩
  have loop : mutualImports.Adjacent 7 7 := ⟨⟨7, 7, "c", "./c", 1⟩, by decide, rfl, rfl⟩
  have reached : mutualImports.Reached 7 :=
    ⟨⟨1, "b.ts", "src/b.ts", "other", 2, 0⟩, by decide, .single toLoop⟩
  exact ⟨reached, mutualImports.closed_walk_has_reported_step 7 [7, 7]
    (by simp [loop]) rfl reached⟩

end ImportAtlas.Graph
