/-!
# Sets of code points given by their edges

A property of code points is stored as the increasing list of places where it changes: it is off
before the first edge, on from the first to the second, and so on. Membership counts the edges
that are not beyond the code point.
-/

namespace ImportAtlas.Text

/-- Whether `n` lies in the set whose edges are `edges`. -/
def withinEdges (edges : List Nat) (n : Nat) : Bool :=
  edges.countP (fun e => decide (e ≤ n)) % 2 == 1

@[simp] theorem withinEdges_nil (n : Nat) : withinEdges [] n = false := rfl

/-- An edge that is not beyond `n` flips the answer of the others. -/
theorem withinEdges_cons (e : Nat) (edges : List Nat) (n : Nat) :
    withinEdges (e :: edges) n = (decide (e ≤ n) ^^ withinEdges edges n) := by
  unfold withinEdges
  by_cases h : e ≤ n
  · simp only [List.countP_cons, h, decide_true, if_true]
    generalize List.countP (fun e => decide (e ≤ n)) edges = k
    rcases Nat.mod_two_eq_zero_or_one k with hk | hk <;>
      simp [hk, Nat.add_mod]
  · simp [h]

end ImportAtlas.Text
