import ImportAtlas.Declaration.Export
import ImportAtlas.Discovery
import ImportAtlas.Memory.Sink
import ImportAtlas.Report.Store

/-!
# Analysing a project

Discover the files, read their declarations, build the graph, find cycles and unused exports,
assemble the report, and hand it over: to the report's file and, if asked, to a memory. A file that
cannot be read drops out of the graph; a memory that cannot be written does not stop the analysis.
-/

namespace ImportAtlas

inductive AnalysisError where
  /-- The settings cannot be used, or a number in the report cannot be written. -/
  | fault (f : Fault)
  /-- The report cannot be saved. -/
  | file (e : FileError)
  deriving DecidableEq, Repr

/-- What an analysis found and where it left the report. -/
structure AnalysisRun where
  discovery : Discovery
  analyses : List (FileAnalysis String)
  report : Report String
  reportPath : Option Location

structure MemorySink where
  location : Location
  limit : Int

namespace Analysis

def ofContent (settings : AnalysisSettings) (name path category content : String) :
    FileAnalysis String :=
  ⟨name, path, if category = "" then Category.ofPath settings.sourceRoot path else category,
    importsOf settings.aliases path content, exportsOf path content⟩

/-- The declarations of a file, if it can be read. An empty category means that of its place. -/
def file? (w : World) (root : Location) (settings : AnalysisSettings) (category : String)
    (l : Location) : Option (FileAnalysis String) :=
  match w.readText l with
  | .ok content =>
    some (ofContent settings l.name (Location.relativeTo w.here root l) category content)
  | .error _ => none

/-- The declarations of all discovered files that can be read. -/
def files (w : World) (root : Location) (settings : AnalysisSettings) (d : Discovery) :
    List (FileAnalysis String) :=
  d.files.filterMap fun (l, category) => file? w root settings category l

def resolver (settings : AnalysisSettings) (analyses : List (FileAnalysis String)) : Resolver :=
  Resolver.make (analyses.map (·.path)) settings.extensions settings.aliases settings.sourceRoot

/-- The leading segments that the settings give a category. -/
def segments (settings : AnalysisSettings) : Category.Segments :=
  Category.segmentsFor Category.builtIn settings.sourceRoot
    (settings.subtrees.map fun s => (s.path, s.category))

def reportOn (root : Location) (settings : AnalysisSettings) (timestamp : String) (total : Nat)
    (analyses : List (FileAnalysis String)) : Report String :=
  let r := resolver settings analyses
  let graph := Graph.build r analyses
  Report.assemble root.name root.text timestamp total analyses graph graph.cycles
    (Unused.find r (segments settings) analyses)

/-- The analysis of the project at `root`, without handing it over. The report carries the time
of the world's clock. -/
def examine (w : World) (root : Location) (settings : AnalysisSettings) :
    Except Fault AnalysisRun := do
  let d ← Discovery.run w root settings.subtrees settings.exclude
  let analyses := files w root settings d
  let timestamp ← w.timestamp
  return ⟨d, analyses, reportOn root settings timestamp d.files.length analyses, none⟩

/-- Publishes a report; a failure leaves every file as it was. -/
def publish (sink : Option MemorySink) (r : Report String) (w : World) : World :=
  match sink with
  | none => w
  | some s =>
    match Memory.publish s.location s.limit (Report.ofTexts r) w with
    | .ok w' => w'
    | .error _ => Memory.afterFailure s.location w

def reportLocation (root : Location) (settings : AnalysisSettings) : Location :=
  root.append (Location.ofText settings.reportPath)

/-- The analysis of the project at `root`: the report is saved if `persist` says so, and
published if there is a memory. -/
def run (w : World) (root : Location) (settings : AnalysisSettings) (sink : Option MemorySink)
    (persist : Bool) : Except AnalysisError (AnalysisRun × World) :=
  match examine w root settings with
  | .error f => .error (.fault f)
  | .ok found =>
    if persist then
      let location := reportLocation root settings
      match ReportStore.save ⟨location⟩ (Report.ofTexts found.report).toJson w with
      | .error (.file e) => .error (.file e)
      | .error (.fault f) => .error (.fault f)
      | .ok w =>
        .ok ({ found with reportPath := some location }, publish sink found.report w)
    else .ok (found, publish sink found.report w)

end Analysis

end ImportAtlas
