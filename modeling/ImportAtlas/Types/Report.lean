import ImportAtlas.Discovery
import ImportAtlas.Report.Basic
import ImportAtlas.Types.Definition

/-!
# The report on types

For each exported type the files that use it, the most used first, with a summary.
-/

namespace ImportAtlas

/-- How often used types are used. -/
structure UseDistribution where
  least : Nat
  most : Nat
  average : Number
  median : Nat

structure TypeSummary where
  totalFiles : Int
  totalTypes : Nat
  usedTypes : Nat
  complexTypes : Nat
  distribution : Option UseDistribution

namespace TypeSummary

/-- The mean of some counts: a whole number where it is one, else the nearest double. -/
def mean (counts : List Nat) : Number :=
  let total := counts.foldr (· + ·) 0
  let n := counts.length
  if total % n = 0 then .int (total / n : Nat) else .float (Binary.nearest false total n)

/-- The distribution of counts in increasing order; none if there are no counts. -/
def distributionOf (counts : List Nat) : Option UseDistribution :=
  match counts with
  | [] => none
  | least :: _ =>
    some ⟨least, counts.getLast?.getD 0, mean counts, (counts[counts.length / 2]?).getD 0⟩

/-- The summary of types given by name and number of uses. -/
def ofCounts (types : List (String × Nat)) (totalFiles : Int) : TypeSummary where
  totalFiles := totalFiles
  totalTypes := types.length
  usedTypes := (types.filter (0 < ·.2)).length
  complexTypes := (types.filter (TypeDefinition.isComplexName ·.1)).length
  distribution := distributionOf (((types.map (·.2)).filter (0 < ·)).mergeSort (· ≤ ·))

/-- The quotient of two counts; zero if there is nothing to divide by. -/
def ratio (n d : Nat) : Float := if d = 0 then 0 else Binary.nearest false n d

/-- The share of used types in per cent. -/
def useRate (s : TypeSummary) : Float := ratio s.usedTypes s.totalTypes * 100

def toJson (s : TypeSummary) : Json :=
  .obj [("totalFiles", .int s.totalFiles), ("totalTypes", .nat s.totalTypes),
    ("usedTypes", .nat s.usedTypes), ("unusedTypes", .nat (s.totalTypes - s.usedTypes)),
    ("usageRate", .float s.useRate),
    ("usageDistribution", match s.distribution with
      | none => .obj []
      | some d => .obj [("min", .nat d.least), ("max", .nat d.most), ("average", .num d.average),
          ("median", .nat d.median)]),
    ("complexity", .obj [("simpleTypes", .nat (s.totalTypes - s.complexTypes)),
      ("complexTypes", .nat s.complexTypes),
      ("complexityRatio", .float (ratio s.complexTypes s.totalTypes))])]

end TypeSummary

inductive TypeReportError where
  | noDirectory (l : Location)
  | fault (f : Fault)
  deriving DecidableEq, Repr

def TypeReportError.message : TypeReportError → String
  | .noDirectory l => "types directory not found: " ++ l.text
  | .fault f => f.reason

structure TypeReport where
  timestamp : String
  projectName : String
  projectRoot : String
  summary : TypeSummary
  types : List TypeDefinition

namespace TypeReport

def defaultExclude : List String := Settings.defaultExclude ++ ["build"]

def defaultDirectory : String := "src/types"

def defaultPath : String := "docs/TYPES_REPORT.json"

def searchExtensions : List String := [".ts", ".tsx"]

def listedUses : Nat := 10

/-- Texts by path; a path that comes again replaces the text in its place. -/
def setSource (path text : String) : List (String × String) → List (String × String)
  | [] => [(path, text)]
  | (p, t) :: rest => if p = path then (p, text) :: rest else (p, t) :: setSource path text rest

/-- The texts of the files that can be read, by path from the project root. -/
def sources (w : World) (root : Location) (files : List Location) : List (String × String) :=
  files.foldl (fun acc l =>
    match w.readText l with
    | .ok text => setSource (Location.relativeTo w.here root l) text acc
    | .error _ => acc) []

def typesOf (typeSources projectSources : List (String × String)) : List TypeDefinition :=
  typeSources.flatMap fun (path, content) =>
    (TypeDefinition.ofContent (Location.ofText path).name path content).map fun t =>
      { t with uses := TypeUse.find t.name projectSources }

/-- The most used types first; types with the same number of uses stay in order. -/
def ranked (types : List TypeDefinition) : List TypeDefinition :=
  types.mergeSort fun a b => b.useCount ≤ a.useCount

def typeFiles (w : World) (directory : Location) (exclude : List String) : List Location :=
  (w.findFiles directory [".ts"] exclude).filter fun l => TypeDefinition.isSourceName l.name

/-- The types that are defined under a directory, in the order of the files and, within a file, of
the text, with their uses in the project. -/
def definitions (w : World) (root directory : Location) (exclude : List String) :
    List TypeDefinition :=
  typesOf (sources w root (typeFiles w directory exclude))
    (sources w root (w.findFiles root searchExtensions exclude))

def build (w : World) (root directory : Location) (exclude : List String) :
    Except TypeReportError TypeReport :=
  if w.hasDir directory then
    match w.timestamp with
    | .error f => .error (.fault f)
    | .ok timestamp =>
      let types := ranked (definitions w root directory exclude)
      .ok ⟨timestamp, root.name, root.text,
        TypeSummary.ofCounts (types.map fun t => (t.name, t.useCount))
          (typeFiles w directory exclude).length, types⟩
  else .error (.noDirectory directory)

def unused (r : TypeReport) : List TypeDefinition := r.types.filter (!·.isUsed)

def useJson (u : TypeUse) : Json := .obj [("filePath", .str u.path), ("importCount", .nat u.count)]

def typeJson (t : TypeDefinition) : Json :=
  .obj [("name", .str t.name), ("kind", .str t.kind.keyword), ("fileName", .str t.fileName),
    ("filePath", .str t.filePath), ("line", .int t.line), ("usageCount", .nat t.useCount),
    ("usages", .arr ((t.uses.take listedUses).map useJson)), ("isUsed", .bool t.isUsed)]

def unusedJson (t : TypeDefinition) : Json :=
  .obj [("name", .str t.name), ("kind", .str t.kind.keyword), ("file", .str t.fileName),
    ("line", .int t.line)]

def toJson (r : TypeReport) : Json :=
  .obj [("timestamp", .str r.timestamp),
    ("project", .obj [("name", .str r.projectName), ("root", .str r.projectRoot),
      ("analyzer", .str (Report.analyzerName ++ "-types"))]),
    ("summary", r.summary.toJson), ("types", .arr (r.types.map typeJson)),
    ("unusedTypes", .arr (r.unused.map unusedJson))]

end TypeReport

end ImportAtlas
