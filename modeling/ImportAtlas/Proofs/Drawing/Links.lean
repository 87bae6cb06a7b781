import ImportAtlas.Drawing.Basic
import ImportAtlas.Proofs.Memory.Merged
import ImportAtlas.Proofs.Search.Soundness

/-!
# What a drawing shows

The links of a drawing are the distinct pairs of nodes that edges join, in order of first
appearance, each with the distinct names imported along it. The red ones are those on a cycle. The
cycles that the search finds run along edges, so all their pairs are drawn.
-/

namespace ImportAtlas

/-- The nodes that an edge joins. -/
def Edge.ends {τ : Type} (e : Edge τ) : Int × Int := (e.source, e.target)

/-- The nodes that a link joins. -/
def Link.ends (l : Link) : Int × Int := (l.source, l.target)

namespace Drawing

/-! ## Links -/

/-- The names imported along a pair, each once, in order of first appearance. -/
def namesAlong (edges : List (Edge String)) (p : Int × Int) : List String :=
  ((edges.filter (·.ends = p)).map (·.name)).eraseDups

/-- The pairs that edges join, each once, in order of first appearance. -/
def pairsOf (edges : List (Edge String)) : List (Int × Int) := (edges.map Edge.ends).eraseDups

theorem namesAlong_concat (edges : List (Edge String)) (e : Edge String) (p : Int × Int) :
    namesAlong (edges ++ [e]) p =
      if p = e.ends then
        if e.name ∈ namesAlong edges p then namesAlong edges p else namesAlong edges p ++ [e.name]
      else namesAlong edges p := by
  unfold namesAlong
  rw [List.filter_append, List.map_append]
  by_cases h : p = e.ends
  · subst h
    simp only [decide_true, List.filter_cons_of_pos, List.filter_nil, List.map_singleton,
      eraseDups_concat, List.mem_eraseDups, if_true]
  · rw [List.filter_cons_of_neg (by simpa using Ne.symm h), if_neg h]
    simp

theorem namesAlong_of_notMem {edges : List (Edge String)} {p : Int × Int} (h : p ∉ pairsOf edges) :
    namesAlong edges p = [] := by
  have hnone : edges.filter (·.ends = p) = [] := by
    refine List.filter_eq_nil_iff.2 fun e he hp => h ?_
    rw [pairsOf, List.mem_eraseDups]
    exact List.mem_map.2 ⟨e, he, of_decide_eq_true hp⟩
  rw [namesAlong, hnone]
  rfl

/-- Adding a name changes the link of its pair, or adds one at the end. -/
theorem addName_map {names : Int × Int → List String} {pairs : List (Int × Int)} {p : Int × Int}
    (nodup : pairs.Nodup) (fresh : p ∉ pairs → names p = []) (name : String) :
    addName p.1 p.2 name (pairs.map fun q => ⟨q.1, q.2, names q⟩) =
      (if p ∈ pairs then pairs else pairs ++ [p]).map fun q => ⟨q.1, q.2,
        if q = p then if name ∈ names q then names q else names q ++ [name] else names q⟩ := by
  induction pairs with
  | nil => simp [addName, fresh]
  | cons q pairs ih =>
    obtain ⟨hq, nodup⟩ := List.nodup_cons.1 nodup
    rw [List.map_cons, addName]
    by_cases hqp : q = p
    · subst hqp
      rw [if_pos ⟨rfl, rfl⟩, if_pos List.mem_cons_self, List.map_cons, if_pos rfl]
      congr 1
      · split <;> rfl
      · refine List.map_congr_left fun q' hq' => ?_
        have hne : q' ≠ q := ne_of_mem_of_not_mem hq' hq
        rw [if_neg hne]
    · have hmem : p ∈ q :: pairs ↔ p ∈ pairs := by simp [Ne.symm hqp]
      have hends : ¬ (q.1 = p.1 ∧ q.2 = p.2) := fun h => hqp (Prod.ext h.1 h.2)
      rw [if_neg hends, ih nodup fun h => fresh (mt hmem.1 h)]
      by_cases hp : p ∈ pairs
      · simp [hp, hqp]
      · simp [hp, hqp, Ne.symm hqp]

/-- The links of some edges: a link for each pair, with the names along it. -/
theorem linksOf_eq (edges : List (Edge String)) :
    linksOf edges = (pairsOf edges).map fun p => ⟨p.1, p.2, namesAlong edges p⟩ := by
  induction edges using List.reverseRecOn with
  | nil => rfl
  | append_singleton edges e ih =>
    have hstep : linksOf (edges ++ [e]) = addName e.ends.1 e.ends.2 e.name (linksOf edges) := by
      rw [linksOf, List.foldl_append]
      rfl
    have hpairs : pairsOf (edges ++ [e]) =
        if e.ends ∈ pairsOf edges then pairsOf edges else pairsOf edges ++ [e.ends] := by
      unfold pairsOf
      rw [List.map_append, List.map_singleton, eraseDups_concat]
      simp only [List.mem_eraseDups]
    have nodup : (pairsOf edges).Nodup := nodup_eraseDups _
    rw [hstep, ih, addName_map nodup namesAlong_of_notMem, hpairs]
    simp only [namesAlong_concat]

theorem ends_linksOf (edges : List (Edge String)) :
    (linksOf edges).map Link.ends = pairsOf edges := by
  rw [linksOf_eq, List.map_map]
  exact List.map_id _

/-! ## Red links -/

theorem isRed_ofReport {r : Report String} {l : Link} :
    (ofReport true r).isRed l = decide (l.ends ∈ cycleEdges r.cycles) := by
  rw [isRed, List.contains_eq_mem]
  rfl

/-- The places listed are those of the red links. -/
theorem mem_redPlaces {d : Drawing} {i : Nat} :
    i ∈ d.redPlaces ↔ ∃ l, d.links[i]? = some l ∧ d.isRed l = true := by
  simp [redPlaces, List.mem_zipIdx_iff_getElem?]

end Drawing

end ImportAtlas
