import ImportAtlas.Json.Basic
import ImportAtlas.Label

/-!
# The shape of a report that the gate can read

Before any rule is applied, the gate looks whether the document has the members that the rules
read, of the kinds they expect. `shapeError?` names the first that is not.
-/

namespace ImportAtlas.Gate

/-- The members of a report document. -/
abbrev Document := List (String × Json)

inductive ShapeError where
  | noSummary
  | notAnInteger (key : String)
  | notAList (key : String)
  | nodesNotAList
  | cycleEntry
  | nodeId
  | timestamp
  deriving DecidableEq, Repr

def ShapeError.message : ShapeError → String
  | .noSummary => "missing 'summary' object"
  | .notAnInteger key => "'summary." ++ key ++ "' must be an integer"
  | .notAList key => "'" ++ key ++ "' must be a list"
  | .nodesNotAList => "'graph.nodes' must be a list"
  | .cycleEntry => "'cycles' entries must be lists of node ids"
  | .nodeId => "'graph.nodes[].id' must be an integer"
  | .timestamp => "'timestamp' must be a string"

/-- A whole number; the truth values are none. -/
def isInteger : Json → Bool
  | .num (.int _) => true
  | _ => false

def isList : Json → Bool
  | .arr _ => true
  | _ => false

def isText : Json → Bool
  | .str _ => true
  | _ => false

def items : Option Json → List Json
  | some (.arr vs) => vs
  | _ => []

/-- The counts that the rules read are whole numbers. -/
def summaryError? (d : Document) : Option ShapeError :=
  match d.lookup "summary" with
  | some (.obj s) =>
    (["totalNodes", "totalEdges"].find? fun k => !((s.lookup k).any isInteger)).map .notAnInteger
  | _ => some .noSummary

def listError? (d : Document) : Option ShapeError :=
  (["cycles", "unusedExports", "typeNodes"].find? fun k =>
    (d.lookup k).any (!isList ·)).map .notAList

/-- A graph, where there is one, is an object whose nodes are a list. -/
def graphError? (d : Document) : Option ShapeError :=
  match d.lookup "graph" with
  | none | some .null => none
  | some (.obj g) => if (g.lookup "nodes").all isList then none else some .nodesNotAList
  | some _ => some .nodesNotAList

/-- A cycle is a list of node numbers. -/
def isCycle : Json → Bool
  | .arr vs => vs.all isInteger
  | _ => false

def graphNodes (d : Document) : List Json :=
  match d.lookup "graph" with
  | some (.obj g) => items (g.lookup "nodes")
  | _ => []

/-- A node that has a number has a whole one. -/
def isNode : Json → Bool
  | .obj n => (n.lookup "id").all isInteger
  | _ => true

/-- The first thing that keeps the gate from reading the document. -/
def shapeError? (d : Document) : Option ShapeError :=
  (summaryError? d).or <|
  (listError? d).or <|
  (graphError? d).or <|
  (if (items (d.lookup "cycles")).all isCycle then none else some .cycleEntry).or <|
  (if (graphNodes d).all isNode then none else some .nodeId).or <|
  if (d.lookup "timestamp").all isText then none else some .timestamp

end ImportAtlas.Gate
