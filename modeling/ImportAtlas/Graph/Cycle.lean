import ImportAtlas.Graph.Basic

/-!
# Import cycles

A depth-first search over the out-edges. Every node that was not reached before starts a search;
an edge back to a node on the current path closes a cycle, which is the path from that node on. A
node is never entered twice, so the search finds a cycle in each cyclic region and not every cycle.
-/

namespace ImportAtlas.Links

/-- The targets of a node's edges, in edge order, one for each edge. -/
def targets (l : Links) (v : Int) : List Int :=
  l.edges.filterMap fun e => if e.1 = v then some e.2 else none

/-- Every number once, in order of first appearance. -/
def distinct : List Int → List Int
  | [] => []
  | v :: vs => v :: (distinct vs).filter (· ≠ v)

/-- The targets of every node, and of every edge source that is no node. -/
def adjacency (l : Links) : List (Int × List Int) :=
  (distinct (l.nodes ++ l.edges.map (·.1))).map fun v => (v, l.targets v)

/-- A node on the path and its targets that are still to be followed. -/
structure Frame where
  node : Int
  rest : List Int
  deriving DecidableEq, Repr

/-- A search in progress: the path with its innermost node first, the nodes reached so far, and the
cycles found, last first. -/
structure Search where
  frames : List Frame
  visited : List Int
  found : List (List Int)
  deriving DecidableEq, Repr

namespace Search

def path (s : Search) : List Int := s.frames.map (·.node)

/-- The part of a path, innermost first, that begins at `v`, in walking order. -/
def cycleAt (v : Int) (path : List Int) : List Int := v :: (path.takeWhile (· ≠ v)).reverse

/-- Follows one edge, or leaves a node whose edges are all followed. -/
def step (next : Int → List Int) (s : Search) : Option Search :=
  match s.frames with
  | [] => none
  | ⟨_, []⟩ :: outer => some { s with frames := outer }
  | ⟨v, t :: ts⟩ :: outer =>
    let frames := ⟨v, ts⟩ :: outer
    if t ∈ s.path then some { s with frames, found := cycleAt t s.path :: s.found }
    else if t ∈ s.visited then some { s with frames }
    else some { s with frames := ⟨t, next t⟩ :: frames, visited := t :: s.visited }

def run (next : Int → List Int) : Nat → Search → Search
  | 0, s => s
  | fuel + 1, s =>
    match s.step next with
    | none => s
    | some s' => run next fuel s'

/-- Searches from a node unless it was reached before. -/
def root (next : Int → List Int) (fuel : Nat) (s : Search) (v : Int) : Search :=
  if v ∈ s.visited then s
  else run next fuel { s with frames := [⟨v, next v⟩], visited := v :: s.visited }

end Search

/-- A search enters every node once and follows every edge once, and each takes one step. -/
def stepBound (l : Links) : Nat := l.nodes.length + 2 * l.edges.length + 1

/-- The cycles that the search finds, in the order in which it finds them. -/
def cycles (l : Links) : List (List Int) :=
  let adjacency := l.adjacency
  let next v := (adjacency.lookup v).getD []
  (l.nodes.foldl (Search.root next l.stepBound) ⟨[], [], []⟩).found.reverse

end ImportAtlas.Links

namespace ImportAtlas.Graph

def cycles {τ : Type} (g : Graph τ) : List (List Int) := g.links.cycles

end ImportAtlas.Graph
