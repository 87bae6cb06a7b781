import ImportAtlas.Resolver

/-!
# The dependency graph

One node for each analysed file, numbered in order, and one edge for each import that resolves to
an analysed file.
-/

namespace ImportAtlas

variable {τ σ : Type}

/-- A node: one source file. -/
structure SourceFile (τ : Type) where
  id : Int
  name : τ
  path : τ
  category : τ
  /-- How many bindings the file imports. -/
  imports : Int
  /-- How many names the file exports. -/
  exports : Int
  deriving DecidableEq, Repr

/-- An import that resolves to a node. -/
structure Edge (τ : Type) where
  source : Int
  target : Int
  name : τ
  specifier : τ
  line : Int
  deriving DecidableEq, Repr

structure Graph (τ : Type) where
  nodes : List (SourceFile τ)
  edges : List (Edge τ)
  deriving DecidableEq, Repr

def SourceFile.map (f : τ → σ) (n : SourceFile τ) : SourceFile σ :=
  ⟨n.id, f n.name, f n.path, f n.category, n.imports, n.exports⟩

def Edge.map (f : τ → σ) (e : Edge τ) : Edge σ :=
  ⟨e.source, e.target, f e.name, f e.specifier, e.line⟩

namespace Graph

/-- The first node with the given number. -/
def node? (g : Graph τ) (id : Int) : Option (SourceFile τ) := g.nodes.find? (·.id == id)

/-- The number of the first analysis with the given path. -/
def idOf? [Label τ] (analyses : List (FileAnalysis τ)) (path : τ) : Option Nat :=
  analyses.findIdx? (·.path == path)

def nodeOf (id : Nat) (a : FileAnalysis τ) : SourceFile τ :=
  ⟨id, a.name, a.path, a.category, a.imports.length, a.exports.length⟩

/-- The edge of an import, if it points into the project and resolves to an analysed file. -/
def edgeOf? [Label τ] (r : Resolver) (analyses : List (FileAnalysis τ)) (a : FileAnalysis τ)
    (i : Import τ) : Option (Edge τ) :=
  if i.isRelative then do
    let source ← idOf? analyses a.path
    let target ← (r.target? i.specifier a.path).bind (idOf? analyses)
    return ⟨source, target, i.name, i.specifier, i.line⟩
  else none

def build [Label τ] (r : Resolver) (analyses : List (FileAnalysis τ)) : Graph τ where
  nodes := analyses.mapIdx nodeOf
  edges := analyses.flatMap fun a => a.imports.filterMap (edgeOf? r analyses a)

end Graph

/-- The nodes and edges of a graph as numbers. -/
structure Links where
  nodes : List Int
  edges : List (Int × Int)
  deriving DecidableEq, Repr

def Graph.links (g : Graph τ) : Links :=
  ⟨g.nodes.map (·.id), g.edges.map fun e => (e.source, e.target)⟩

end ImportAtlas
