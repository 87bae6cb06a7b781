import ImportAtlas.Graph.Cycle
import ImportAtlas.Moment.Basic
import ImportAtlas.Unused

/-!
# Reports

A report is everything one analysis found. Its labels are texts when it is assembled, and whatever
the document held when it is read back.
-/

namespace ImportAtlas

variable {τ σ : Type}

structure ProjectInfo (τ : Type) where
  name : τ
  root : τ
  analyzer : τ
  deriving DecidableEq, Repr

structure Summary where
  totalFiles : Int
  analyzedFiles : Int
  totalNodes : Int
  totalEdges : Int
  cyclesCount : Int
  unusedExportsCount : Int
  deriving DecidableEq, Repr

structure Report (τ : Type) where
  timestamp : τ
  project : ProjectInfo τ
  summary : Summary
  /-- The analyses of the files that define types. -/
  typeNodes : List (FileAnalysis τ)
  nodes : List (SourceFile τ)
  edges : List (Edge τ)
  cycles : List (List Int)
  unusedExports : List (UnusedExport τ)
  deriving DecidableEq, Repr

def Report.map (f : τ → σ) (r : Report τ) : Report σ where
  timestamp := f r.timestamp
  project := ⟨f r.project.name, f r.project.root, f r.project.analyzer⟩
  summary := r.summary
  typeNodes := r.typeNodes.map (·.map f)
  nodes := r.nodes.map (·.map f)
  edges := r.edges.map (·.map f)
  cycles := r.cycles
  unusedExports := r.unusedExports.map (·.map f)

namespace Report

def analyzerName : String := "depgraph-cli"

/-- The report of an analysis of the project at `root` that found `totalFiles` files. -/
def assemble (name root timestamp : String) (totalFiles : Nat)
    (analyses : List (FileAnalysis String)) (graph : Graph String) (cycles : List (List Int))
    (unused : List (UnusedExport String)) : Report String where
  timestamp := timestamp
  project := ⟨name, root, analyzerName⟩
  summary :=
    ⟨totalFiles, analyses.length, graph.nodes.length, graph.edges.length, cycles.length,
      unused.length⟩
  typeNodes := analyses.filter (·.category = Category.types)
  nodes := graph.nodes
  edges := graph.edges
  cycles := cycles
  unusedExports := unused

end Report

end ImportAtlas
