import ImportAtlas.Json.Access
import ImportAtlas.Json.Spelling
import ImportAtlas.Report.Document
import ImportAtlas.Text.Search

/-!
# Drawings of a graph

A drawing shows each node once and each connected pair of nodes once, labelled with the distinct
names that are imported along it. Pairs on a cycle are drawn in red. `dot` writes a drawing for
Graphviz and `mermaid` for Mermaid.
-/

namespace ImportAtlas

/-- A connected pair of nodes and the names imported along it. -/
structure Link where
  source : Int
  target : Int
  names : List String
  deriving DecidableEq, Repr

structure Drawing where
  nodes : List (SourceFile String)
  links : List Link
  /-- The pairs drawn in red. -/
  red : List (Int × Int)

namespace Drawing

/-- Adds a name to the link of its pair, making the link if there is none. -/
def addName (source target : Int) (name : String) : List Link → List Link
  | [] => [⟨source, target, [name]⟩]
  | l :: ls =>
    if l.source = source ∧ l.target = target then
      (if name ∈ l.names then l else { l with names := l.names ++ [name] }) :: ls
    else l :: addName source target name ls

/-- The links of some edges, in order of first appearance. -/
def linksOf (edges : List (Edge String)) : List Link :=
  edges.foldl (fun ls e => addName e.source e.target e.name ls) []

/-- The pairs along a cycle, the last back to the first. -/
def cyclePairs (cycle : List Int) : List (Int × Int) :=
  match cycle with
  | [] => []
  | v :: vs => (v :: vs).zip (vs ++ [v])

def cycleEdges (cycles : List (List Int)) : List (Int × Int) := cycles.flatMap cyclePairs

def ofReport (highlight : Bool) (r : Report String) : Drawing :=
  ⟨r.nodes, linksOf r.edges, if highlight then cycleEdges r.cycles else []⟩

def isRed (d : Drawing) (l : Link) : Bool := d.red.contains (l.source, l.target)

def nodeId (id : Int) : String := "n" ++ toString id

def linkText (l : Link) : String := String.intercalate ", " l.names

/-- Lines with a line end after each. -/
def linesText (ls : List String) : String := String.intercalate "\n" ls ++ "\n"

/-! ## Graphviz -/

def otherColour : String := "#e0e0e0"

def colours : List (String × String) :=
  [("type", "#8ecae6"), ("component", "#ffb703"), ("hook", "#90be6d"), ("store", "#f28482"),
   ("utility", "#cdb4db"), ("api", "#f4a261"), ("page", "#a8dadc"), ("other", otherColour)]

def colourOf (category : String) : String := (colours.lookup category).getD otherColour

/-- A text between double quotes, each of its own quotes after a backslash. -/
def dotQuoted (s : String) : String :=
  "\"" ++ String.ofList (Text.replaceChar '"' ['\\', '"'] s.toList) ++ "\""

def dotNode (n : SourceFile String) : String :=
  "  " ++ nodeId n.id ++ " [label=" ++ dotQuoted (n.name ++ "\\n" ++ n.category) ++
    ", fillcolor=\"" ++ colourOf n.category ++ "\", tooltip=" ++ dotQuoted n.path ++ "];"

/-- The attributes of a link, up to the end of its statement. -/
def dotAttributes (l : Link) (red : Bool) : String :=
  "label=" ++ dotQuoted (linkText l) ++ (if red then ", color=\"red\", penwidth=2" else "") ++ "];"

def dotLink (d : Drawing) (l : Link) : String :=
  "  " ++ nodeId l.source ++ " -> " ++ nodeId l.target ++ " [" ++ dotAttributes l (d.isRed l)

def dotLines (d : Drawing) : List String :=
  ["digraph Dependencies \x7b", "  rankdir=LR;",
    "  node [shape=box, style=filled, fontname=\"Helvetica\"];"] ++
    d.nodes.map dotNode ++ d.links.map d.dotLink ++ ["\x7d"]

def dot (d : Drawing) : String := linesText d.dotLines

/-! ## Mermaid -/

/-- A text with the marks of Mermaid replaced. -/
def mermaidText (s : String) : String :=
  String.ofList (Text.replaceChar '|' ['/'] (Text.replaceChar '"' ['\x27'] s.toList))

def mermaidNode (n : SourceFile String) : String :=
  "  " ++ nodeId n.id ++ "[\"" ++ mermaidText n.name ++ "\"]"

def mermaidLink (l : Link) : String :=
  "  " ++ nodeId l.source ++ " -->|" ++ mermaidText (linkText l) ++ "| " ++ nodeId l.target

/-- The places of the red links among all. -/
def redPlaces (d : Drawing) : List Nat :=
  (d.links.zipIdx.filter fun p => d.isRed p.1).map (·.2)

/-- The line that colours the links at some places. -/
def styleLine (places : List Nat) : String :=
  "  linkStyle " ++ String.intercalate "," (places.map toString) ++ " stroke:red,stroke-width:2px"

def mermaidStyle (d : Drawing) : List String :=
  if d.redPlaces = [] then [] else [styleLine d.redPlaces]

def mermaidLines (d : Drawing) : List String :=
  ["graph LR"] ++ d.nodes.map mermaidNode ++ d.links.map mermaidLink ++ d.mermaidStyle

def mermaid (d : Drawing) : String := linesText d.mermaidLines

end Drawing

/-! ## Reports that were read back -/

namespace Report

/-- The names along the edges must be texts. -/
def edgeTexts (es : List (Edge Json)) : Except Fault (List (Edge String)) :=
  es.mapM fun e =>
    match e.name with
    | .str s => .ok ⟨e.source, e.target, s, e.specifier.spell, e.line⟩
    | _ => .error .wrongKind

/-- A node for Graphviz: its path must be a text and its category a key. -/
def dotNodeTexts (n : SourceFile Json) : Except Fault (SourceFile String) := do
  let category ← n.category.toKey
  let path ← n.path.toText
  return ⟨n.id, n.name.spell, path, category.spell, n.imports, n.exports⟩

/-- A node for Mermaid: its name must be a text. -/
def mermaidNodeTexts (n : SourceFile Json) : Except Fault (SourceFile String) := do
  let name ← n.name.toText
  return ⟨n.id, name, n.path.spell, n.category.spell, n.imports, n.exports⟩

/-- The Graphviz drawing of a report that was read back. -/
def toDot (highlight : Bool) (r : Report Json) : Except Fault String := do
  let nodes ← r.nodes.mapM dotNodeTexts
  let edges ← edgeTexts r.edges
  return (Drawing.ofReport highlight { r.map Json.spell with nodes, edges }).dot

def toMermaid (highlight : Bool) (r : Report Json) : Except Fault String := do
  let nodes ← r.nodes.mapM mermaidNodeTexts
  let edges ← edgeTexts r.edges
  return (Drawing.ofReport highlight { r.map Json.spell with nodes, edges }).mermaid

end Report

end ImportAtlas
