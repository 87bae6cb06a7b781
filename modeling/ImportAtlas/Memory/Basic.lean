import ImportAtlas.Json.Access
import ImportAtlas.Json.Spelling
import ImportAtlas.Report.Document

/-!
# Memories

A memory is a list of entities and relations, each with observations. An entity is known by its name
and a relation by its ends and its kind; setting one that is known replaces it in its place. The
texts of a memory are code units, so that names which differ in half of a pair stay apart. A report
is projected to one entity for each type file, one relation for each edge up to a limit, and one
entity for the graph as a whole.
-/

namespace ImportAtlas

structure Entity (τ : Type := String) where
  name : Json τ
  kind : Json τ
  observations : List (Json τ)

structure Relation (τ : Type := String) where
  source : Json τ
  target : Json τ
  kind : Json τ
  observations : List (Json τ)

variable {τ : Type}

def Entity.toJson [Wording τ] (e : Entity τ) : Json τ :=
  .obj [(Wording.ofString "type", .str (Wording.ofString "entity")),
    (Wording.ofString "name", e.name), (Wording.ofString "entityType", e.kind),
    (Wording.ofString "observations", .arr e.observations)]

def Relation.toJson [Wording τ] (r : Relation τ) : Json τ :=
  .obj [(Wording.ofString "type", .str (Wording.ofString "relation")),
    (Wording.ofString "from", r.source), (Wording.ofString "to", r.target),
    (Wording.ofString "relationType", r.kind),
    (Wording.ofString "observations", .arr r.observations)]

/-- Known by the same name. -/
def Entity.sameKey [DecidableEq τ] (a b : Entity τ) : Bool := a.name.same b.name

/-- Known by the same ends and kind. -/
def Relation.sameKey [DecidableEq τ] (a b : Relation τ) : Bool :=
  a.source.same b.source && a.target.same b.target && a.kind.same b.kind

/-- Replaces the first item with the same key, or adds at the end. -/
def setBy {α : Type} (sameKey : α → α → Bool) (x : α) : List α → List α
  | [] => [x]
  | y :: ys => if sameKey y x then x :: ys else y :: setBy sameKey x ys

/-- Entities and relations in order of first appearance. -/
structure Memory where
  entities : List (Entity CodeUnits)
  relations : List (Relation CodeUnits)

namespace Memory

def empty : Memory := ⟨[], []⟩

def setEntity (m : Memory) (e : Entity CodeUnits) : Memory :=
  { m with entities := setBy Entity.sameKey e m.entities }

def setRelation (m : Memory) (r : Relation CodeUnits) : Memory :=
  { m with relations := setBy Relation.sameKey r m.relations }

/-- The text of a memory: a line for each entity, then one for each relation. -/
def text (m : Memory) : String :=
  String.intercalate "\n" (m.entities.map (·.toJson.line) ++ m.relations.map (·.toJson.line)) ++ "\n"

end Memory

/-- What a report says to a memory. -/
structure Projection (τ : Type := String) where
  entities : List (Entity τ)
  relations : List (Relation τ)
  /-- Observations of the graph as a whole, by entity name. -/
  observations : List (τ × List τ)

namespace Projection

/-- The relations that are projected unless a limit is given. -/
def defaultLimit : Int := 100

def graphEntity : String := "Project_Dependency_Graph"

/-- The first `n` items, or all but the last `-n` for a negative `n`. -/
def limited {α : Type} (n : Int) (xs : List α) : List α :=
  if 0 ≤ n then xs.take n.toNat else xs.take (xs.length - (-n).toNat)

section

variable [Append τ] [Wording τ]

def labelled (label : String) (v : Json τ) : τ := Wording.ofString label ++ v.spell

/-- The entity of a type file; it goes by its first export. -/
def ofTypeFile (a : FileAnalysis (Json τ)) : Entity τ :=
  let name := match a.exports with
    | e :: _ => e.name
    | [] => a.name
  ⟨.str (labelled "Type_" name), .str (Wording.ofString "typescript_type"),
    [.str (labelled "Defined in: " a.name), .str (labelled "Category: " a.category),
     .str (Wording.ofString ("Exports: " ++ toString a.exports.length ++ " items")),
     .str (Wording.ofString ("Imports: " ++ toString a.imports.length ++ " items")),
     .str (labelled "File path: " a.path)]⟩

/-- The name of a node, as the last node with its number gives it. -/
def nodeName (nodes : List (SourceFile (Json τ))) (id : Int) : Json τ :=
  match nodes.reverse.find? (·.id = id) with
  | some n => n.name
  | none => .str (Wording.ofString "unknown")

def ofEdge (nodes : List (SourceFile (Json τ))) (e : Edge (Json τ)) : Relation τ :=
  ⟨.str (labelled "File_" (nodeName nodes e.source)),
    .str (labelled "File_" (nodeName nodes e.target)), .str (Wording.ofString "imports"),
    [.str (labelled "Import: " e.name),
     .str (Wording.ofString ("From line: " ++ toString e.line)),
     .str (labelled "Path: " e.specifier)]⟩

/-- The projection of a report with at most `limit` relations. -/
def ofReport (limit : Int) (r : Report (Json τ)) : Projection τ where
  entities := r.typeNodes.map ofTypeFile
  relations := (limited limit r.edges).map (ofEdge r.nodes)
  observations :=
    [(Wording.ofString graphEntity,
      [Wording.ofString ("Total nodes: " ++ toString r.nodes.length),
       Wording.ofString ("Total edges: " ++ toString r.edges.length),
       Wording.ofString ("Cyclic dependencies: " ++ toString r.cycles.length),
       Wording.ofString ("Unused exports: " ++ toString r.unusedExports.length),
       labelled "Analysis timestamp: " r.timestamp, labelled "Project root: " r.project.root])]

end

/-- The projection of a report in code units. -/
def exact [Wording τ] (limit : Int) (r : Report (Json τ)) : Projection CodeUnits :=
  ofReport limit (r.map (Json.map CodeUnits.of))

def graphEntities [Wording τ] (p : Projection τ) : List (Entity τ) :=
  p.observations.map fun (name, os) =>
    ⟨.str name, .str (Wording.ofString "dependency_graph"), os.map .str⟩

def into (p : Projection CodeUnits) (m : Memory) : Memory :=
  let m := (p.entities ++ p.graphEntities).foldl Memory.setEntity m
  p.relations.foldl Memory.setRelation m

end Projection

end ImportAtlas
