import ImportAtlas.Gate.Finding
import ImportAtlas.Gate.Shape
import ImportAtlas.Json.Access
import ImportAtlas.Json.Spelling
import ImportAtlas.Json.Writer
import ImportAtlas.Moment.Reader
import ImportAtlas.Path

/-!
# The rules of the gate

Every rule is applied, none stops another, and the findings stand in a fixed order: cycles, unused
exports, the structure of the graph, the age of the report, type files without exports. On a
document without a `shapeError?` the only faults that can arise are numbers too large for a double,
counts in the summary that are no whole numbers, and counts and thresholds of more digits than a
message takes. The other whole numbers that a message shows come from a text, where no number has
more digits than that.
-/

namespace ImportAtlas.Gate

/-- What the gate tolerates. -/
structure Thresholds where
  cycles : Number
  unused : Number
  averageImports : Number
  staleHours : Number

/-- No cycle, ten unused exports, twenty imports a file, one day. -/
def Thresholds.default : Thresholds := ⟨.int 0, .int 10, .float 20, .float 24⟩

/-- A member of the document, null if it is missing. -/
def member (d : Document) (key : String) : Json := (d.lookup key).getD .null

/-- What running through a member gives; nothing if it does not count. -/
def run (d : Document) (key : String) : Except Fault (List Json) :=
  let v := member d key
  if v.counts then v.elements else .ok []

/-- The length of a list that is present, else the number in the summary. -/
def count (d : Document) (listKey summaryKey : String) : Except Fault Int :=
  match d.lookup listKey with
  | some (.arr vs) => .ok vs.length
  | _ => do
    let summary ← (Json.obj d).field "summary"
    let v ← summary.fieldD summaryKey (.int 0)
    if v.counts then v.toInt else return 0

/-- Short names of nodes by number. -/
abbrev NodeNames := List (Json × String)

/-- The name of a node, as the last entry under its number gives it. -/
def nodeName (names : NodeNames) (id : Json) : Except Fault String := do
  let id ← id.toKey
  return ((names.reverse.find? (·.1.same id)).map (·.2)).getD "unknown"

def nodeNames (d : Document) : Except Fault NodeNames := do
  let graph := member d "graph"
  let nodes ←
    if graph.counts then (← graph.fieldD "nodes" (.arr [])).elements else pure []
  let named := nodes.filterMap fun
    | .obj n => (n.lookup "id").map fun id => (id, ((n.lookup "name").getD (.str "unknown")).spell)
    | _ => none
  named.mapM fun (id, name) => return (← id.toKey, (Path.splitExtension name).1)

def cycleText (names : NodeNames) (cycle : List Json) : Except Fault String := do
  return String.intercalate " → " (← cycle.mapM (nodeName names))

def cycleTexts (d : Document) : Except Fault (List String) := do
  let names ← nodeNames d
  let cycles := (← run d "cycles").filterMap fun
    | .arr vs => some vs
    | _ => none
  cycles.mapM (cycleText names)

def unusedText (u : Document) : String :=
  Path.basename ((u.lookup "file").getD (.str "")).spell ++ ": '" ++ (member u "export").spell ++
    "' (line " ++ (member u "line").spell ++ ")"

def unusedTexts (d : Document) : Except Fault (List String) := do
  return (← run d "unusedExports").filterMap fun
    | .obj u => some (unusedText u)
    | _ => none

/-- A number in a message. -/
def numeral (n : Number) : Except Fault String :=
  if Json.numberWritable n then .ok n.text else .error .badValue

/-- A count against its threshold. The details are looked at only if there are too many things, and
before the message is written. -/
def checkCount (d : Document) (rule : Rule) (listKey summaryKey things : String)
    (threshold : Number) (details : Except Fault (List String)) :
    Except Fault (Int × Option Finding) := do
  let n ← count d listKey summaryKey
  if (Number.int n).le threshold then return (n, none)
  let details ← details
  let shown ← numeral (.int n)
  let bound ← numeral threshold
  return (n, some ⟨rule, shown ++ " " ++ things ++ " (threshold: " ++ bound ++ ")", details⟩)

def checkCycles (d : Document) (t : Thresholds) : Except Fault (Int × Option Finding) :=
  checkCount d .cycles "cycles" "cyclesCount" "cyclic dependencies found" t.cycles (cycleTexts d)

def checkUnused (d : Document) (t : Thresholds) : Except Fault (Int × Option Finding) :=
  checkCount d .unusedExports "unusedExports" "unusedExportsCount" "unused exports" t.unused
    (unusedTexts d)

/-- The quotient of two numbers as a double: of whole numbers the exact quotient is rounded. -/
def divide (a b : Json) : Except Fault Float :=
  match a.asNumber?, b.asNumber? with
  | some (.int m), some (.int n) =>
    match Binary.nearest? (decide (m < 0) != decide (n < 0)) m.natAbs n.natAbs with
    | some x => .ok x
    | none => .error .outOfRange
  | some m, some n =>
    match m.toFloat?, n.toFloat? with
    | some x, some y => .ok (x / y)
    | _, _ => .error .outOfRange
  | _, _ => .error .wrongKind

def thresholdText (n : Number) : Except Fault String :=
  match n.toFloat? with
  | some x => .ok (Binary.briefText x)
  | none => .error .outOfRange

/-- What the structure of the graph gives: its size and, if it has edges, the average. -/
structure GraphCheck where
  nodes : Json
  edges : Json
  average : Option Float
  finding : Option Finding

/-- No nodes, no edges, or too many imports for a file on average. -/
def checkStructure (d : Document) (t : Thresholds) : Except Fault GraphCheck := do
  let summary ← (Json.obj d).field "summary"
  let nodes ← summary.field "totalNodes"
  let edges ← summary.field "totalEdges"
  if nodes.same (.int 0) then
    return ⟨nodes, edges, none, some ⟨.emptyGraph,
      "Graph contains no nodes (files); the project may have no analyzable files", []⟩⟩
  if edges.same (.int 0) then
    return ⟨nodes, edges, none, some ⟨.noEdges,
      "Graph contains no edges (imports); files may not import each other or analysis failed", []⟩⟩
  let average := Binary.roundPlaces 2 (← divide edges nodes)
  if t.averageImports.lt (.float average) then
    let threshold ← thresholdText t.averageImports
    return ⟨nodes, edges, some average, some ⟨.importDensity,
      "High average imports per file (" ++ Binary.fixedText 2 average ++ ", threshold: " ++
        threshold ++ ")", []⟩⟩
  return ⟨nodes, edges, some average, none⟩

/-- A report whose time cannot be read, or that is older than tolerated. -/
def checkAge (d : Document) (t : Thresholds) (now : Moment) :
    Except Fault (Option Float × Option Finding) := do
  let timestamp := member d "timestamp"
  if !timestamp.counts then return (none, none)
  let text ← timestamp.toText
  match Moment.ofText? text with
  | none =>
    return (none, some ⟨.stale,
      "Report timestamp '" ++ text ++ "' is unreadable; re-run the analysis", []⟩)
  | some made =>
    let age := now.hoursSince made
    let shown := some (Binary.roundPlaces 1 age)
    if t.staleHours.lt (.float age) then
      let threshold ← thresholdText t.staleHours
      return (shown, some ⟨.stale,
        "Report is stale (" ++ Binary.fixedText 1 age ++ " hours old, threshold: " ++ threshold ++
          ")", []⟩)
    return (shown, none)

def checkTypeFiles (d : Document) : Except Fault (Nat × Option Finding) := do
  let files := (← run d "typeNodes").filterMap fun
    | .obj t => some t
    | _ => none
  let empty := files.filter fun t => !(member t "exports").counts
  if empty.isEmpty then return (files.length, none)
  return (files.length, some ⟨.emptyTypeFiles,
    toString empty.length ++ " type files have no exports",
    empty.map fun t => ((t.lookup "fileName").getD (.str "unknown")).spell⟩)

def evaluate (d : Document) (t : Thresholds) (now : Moment) : Except Fault Result := do
  let (cycles, f₁) ← checkCycles d t
  let (unused, f₂) ← checkUnused d t
  let s ← checkStructure d t
  let (age, f₄) ← checkAge d t now
  let (typeFiles, f₅) ← checkTypeFiles d
  return ⟨[f₁, f₂, s.finding, f₄, f₅].filterMap id,
    ⟨cycles, unused, s.nodes, s.edges, s.average, age, typeFiles⟩⟩

end ImportAtlas.Gate
