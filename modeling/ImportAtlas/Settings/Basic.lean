import ImportAtlas.Category
import ImportAtlas.Gate.Rules
import ImportAtlas.Location
import ImportAtlas.Resolver

/-!
# Settings

What an analysis covers and what the gate tolerates. Settings come from a document whose missing
members fall back to the defaults; a member of the wrong kind is refused.
-/

namespace ImportAtlas

/-- A part of the project and the files that it contributes. -/
structure Subtree where
  /-- Its name in listings; whatever the settings give. -/
  label : Json
  path : String
  category : String
  extensions : List String

structure AnalysisSettings where
  sourceRoot : String
  aliases : List String
  extensions : List String
  exclude : List String
  reportPath : String
  subtrees : List Subtree

structure Settings where
  analysis : AnalysisSettings
  thresholds : Gate.Thresholds

inductive SettingsError where
  | notTables
  | notStrings (key : String)
  | notText (key : String)
  | notANumber (key : String)
  | negative (key : String)
  | subtreesNotAnArray
  | subtreeNotATable
  /-- The file cannot be read or is no settings document. -/
  | unreadable (path : String)
  deriving DecidableEq, Repr

def SettingsError.message : SettingsError → String
  | .notTables => "'analysis' and 'validation' must be tables"
  | .notStrings key => "'" ++ key ++ "' must be a list of strings"
  | .notText key => "'" ++ key ++ "' must be a non-empty string"
  | .notANumber key => "'" ++ key ++ "' must be a number"
  | .negative key => "'" ++ key ++ "' must not be negative"
  | .subtreesNotAnArray => "'analysis.subtrees' must be an array of tables"
  | .subtreeNotATable => "each entry of 'analysis.subtrees' must be a table"
  | .unreadable path => "Could not read " ++ path

/-- Settings are refused, or a number in them cannot be converted. -/
inductive SettingsFailure where
  | refused (e : SettingsError)
  | fault (f : Fault)
  deriving DecidableEq, Repr

namespace Settings

def defaultExclude : List String := ["node_modules", ".next", "dist", ".git"]

def defaultReportPath : String := "docs/DEPENDENCIES.json"

def defaultSubtrees : List Subtree :=
  [⟨.str "types", "src/types", "type", [".ts"]⟩,
   ⟨.str "components", "src/components", "component", [".tsx"]⟩,
   ⟨.str "hooks", "src/hooks", "hook", [".ts"]⟩,
   ⟨.str "store", "src/store", "store", [".ts", ".tsx"]⟩,
   ⟨.str "lib", "src/lib", "utility", [".ts"]⟩,
   ⟨.str "api", "src/app/api", "api", [".ts"]⟩]

def default : Settings where
  analysis :=
    ⟨Resolver.defaultSourceRoot, Resolver.defaultAliases, Resolver.defaultExtensions,
      defaultExclude, defaultReportPath, defaultSubtrees⟩
  thresholds := Gate.Thresholds.default

abbrev Table := List (String × Json)

/-- The texts of a list that holds nothing else. -/
def stringList? : Json → Option (List String)
  | .arr vs => vs.mapM fun
    | .str s => some s
    | _ => none
  | _ => none

def strings (t : Table) (key : String) (fallback : List String) :
    Except SettingsFailure (List String) :=
  match t.lookup key with
  | none => .ok fallback
  | some v =>
    match stringList? v with
    | some ss => .ok ss
    | none => .error (.refused (.notStrings key))

/-- A text under a key that is not empty. -/
def string (t : Table) (key fallback : String) : Except SettingsFailure String :=
  match (t.lookup key).getD (.str fallback) with
  | .str s => if s = "" then .error (.refused (.notText key)) else .ok s
  | _ => .error (.refused (.notText key))

/-- A number under a key that is not negative. -/
def number (t : Table) (key : String) (fallback : Number) : Except SettingsFailure Number :=
  match (t.lookup key).getD (.num fallback) with
  | .num n => if n.lt (.int 0) then .error (.refused (.negative key)) else .ok n
  | _ => .error (.refused (.notANumber key))

/-- How a threshold is kept: cut to a whole number, or as a double. -/
inductive Form where
  | whole
  | double

def Form.convert : Form → Number → Except Fault Number
  | .whole, n => (Json.num n).toInt.map .int
  | .double, n => (n.toFloat?.map .float).elim (.error .outOfRange) .ok

/-- A threshold: its key, how it is kept, and where. -/
structure Limit where
  key : String
  form : Form
  get : Gate.Thresholds → Number

namespace Limit

def cycles : Limit := ⟨"cycles_threshold", .whole, (·.cycles)⟩

def unused : Limit := ⟨"unused_threshold", .whole, (·.unused)⟩

def average : Limit := ⟨"max_avg_imports_per_file", .double, (·.averageImports)⟩

def stale : Limit := ⟨"stale_hours", .double, (·.staleHours)⟩

def read (l : Limit) (t : Table) : Except SettingsFailure Number := do
  let n ← number t l.key (l.get default.thresholds)
  (l.form.convert n).mapError .fault

end Limit

/-- One subtree. Without a label that counts it goes by the last segment of its path. -/
def subtree : Json → Except SettingsFailure Subtree
  | .obj t => do
    let path ← string t "path" ""
    let label := (t.lookup "label").getD .null
    let category ← string t "category" Category.other
    let extensions ← strings t "extensions" Resolver.defaultExtensions
    return ⟨if label.counts then label else .str (Location.ofText path).name, path, category,
      extensions⟩
  | _ => throw (.refused .subtreeNotATable)

/-- The subtrees, if the settings name any. -/
def subtrees (t : Table) (fallback : List Subtree) : Except SettingsFailure (List Subtree) :=
  match t.lookup "subtrees" with
  | none => .ok fallback
  | some (.arr vs) => vs.mapM subtree
  | some _ => .error (.refused .subtreesNotAnArray)

/-- A table under a key; empty if it is missing. -/
def table (t : Table) (key : String) : Except SettingsFailure Table :=
  match t.lookup key with
  | none => .ok []
  | some (.obj ms) => .ok ms
  | some _ => .error (.refused .notTables)

/-- What an analysis covers, from the table about it. -/
def readAnalysis (t : Table) : Except SettingsFailure AnalysisSettings := do
  let sourceRoot ← string t "source_root" default.analysis.sourceRoot
  let aliases ← strings t "alias_prefixes" default.analysis.aliases
  let extensions ← strings t "extensions" default.analysis.extensions
  let exclude ← strings t "exclude" default.analysis.exclude
  let reportPath ← string t "report_path" default.analysis.reportPath
  let subtrees ← subtrees t default.analysis.subtrees
  return ⟨sourceRoot, aliases, extensions, exclude, reportPath, subtrees⟩

/-- What the gate tolerates, from the table about it. -/
def readThresholds (t : Table) : Except SettingsFailure Gate.Thresholds := do
  let cycles ← Limit.cycles.read t
  let unused ← Limit.unused.read t
  let average ← Limit.average.read t
  let stale ← Limit.stale.read t
  return ⟨cycles, unused, average, stale⟩

/-- Settings from a document. Both tables are looked for before one of them is read. -/
def ofTable (t : Table) : Except SettingsFailure Settings := do
  let analysis ← table t "analysis"
  let validation ← table t "validation"
  return ⟨← readAnalysis analysis, ← readThresholds validation⟩

def ofJson : Json → Except SettingsFailure Settings
  | .obj t => ofTable t
  | _ => throw (.fault .noOperation)

end Settings

end ImportAtlas
