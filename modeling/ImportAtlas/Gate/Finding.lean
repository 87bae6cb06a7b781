import ImportAtlas.Json.Basic

/-!
# Findings of the gate

Each rule has a code and a severity. Critical findings fail the gate; warnings never do.
-/

namespace ImportAtlas.Gate

inductive Severity where
  | critical
  | warning
  deriving DecidableEq, Repr

inductive Verdict where
  | passed
  | passedWithWarnings
  | failed
  deriving DecidableEq, Repr

inductive Rule where
  | cycles
  | unusedExports
  | emptyGraph
  | noEdges
  | importDensity
  | stale
  | emptyTypeFiles
  deriving DecidableEq, Repr

/-- Cycles and graphs without nodes or edges are critical. -/
def Rule.severity : Rule → Severity
  | .cycles | .emptyGraph | .noEdges => .critical
  | .unusedExports | .importDensity | .stale | .emptyTypeFiles => .warning

/-- The rule's name in answers. -/
def Rule.code : Rule → String
  | .cycles => "cycles"
  | .unusedExports => "unused_exports"
  | .emptyGraph => "empty_graph"
  | .noEdges => "no_edges"
  | .importDensity => "import_density"
  | .stale => "stale"
  | .emptyTypeFiles => "empty_type_files"

def Severity.text : Severity → String
  | .critical => "critical"
  | .warning => "warning"

def Verdict.text : Verdict → String
  | .passed => "PASSED"
  | .passedWithWarnings => "PASSED WITH WARNINGS"
  | .failed => "FAILED"

/-- A rule that a report breaks. -/
structure Finding where
  rule : Rule
  message : String
  details : List String
  deriving DecidableEq, Repr

def Finding.severity (f : Finding) : Severity := f.rule.severity

structure Metrics where
  cycles : Int
  unusedExports : Int
  nodes : Json
  edges : Json
  averageImports : Option Float
  ageHours : Option Float
  typeFiles : Nat

/-- The measured values under their names, in the order in which they are taken. -/
def Metrics.entries (m : Metrics) : List (String × Json) :=
  [("cycles", .int m.cycles), ("unused_exports", .int m.unusedExports), ("nodes", m.nodes),
    ("edges", m.edges)] ++
  (m.averageImports.map fun x => ("avg_imports_per_file", Json.float x)).toList ++
  (m.ageHours.map fun x => ("age_hours", Json.float x)).toList ++
  [("type_files", .nat m.typeFiles)]

structure Result where
  findings : List Finding
  metrics : Metrics

namespace Result

def criticals (r : Result) : List Finding := r.findings.filter (·.severity = .critical)

def warnings (r : Result) : List Finding := r.findings.filter (·.severity = .warning)

/-- Failed on a critical finding, with warnings on any other. -/
def verdict (r : Result) : Verdict :=
  if r.criticals ≠ [] then .failed
  else if r.warnings ≠ [] then .passedWithWarnings
  else .passed

def exitCode (r : Result) : Nat := if r.verdict = .failed then 1 else 0

def codes (r : Result) : List String := r.findings.map (·.rule.code)

end Result

end ImportAtlas.Gate
