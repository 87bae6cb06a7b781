import ImportAtlas.Analysis
import ImportAtlas.Command.Request
import ImportAtlas.Command.Shell

/-!
# The analysis as a command

Prints how many files each subtree holds, where the report is, and the first cycles and unused
exports.
-/

namespace ImportAtlas.Command.Analyze

open Console.Markup (escape)
open Script

def listedCycles : Nat := 3

def listedExports : Nat := 5

/-- A row of the table of files. Only a text can be printed as a label. -/
def row (label : Json) (files : List Location) : Script (List String) :=
  match label with
  | .str s => return [s, toString files.length]
  | .null => return ["", toString files.length]
  | _ => throw (.failure .unprintable)

def filesTable (d : Discovery) : Script Console.Table := do
  let rows ← d.bySubtree.mapM fun (label, files) => row label files
  return ⟨"Files found", [⟨"Subtree", false⟩, ⟨"Files", true⟩],
    rows ++ [["[bold]Total[/bold]", toString d.files.length]]⟩

def stemOf (r : Report String) (id : Int) : String :=
  match r.nodes.reverse.find? (·.id = id) with
  | some n => (Location.ofText n.name).stem
  | none => "unknown"

def cycleLine (r : Report String) (number : Nat) (cycle : List Int) : String :=
  "      Cycle " ++ toString number ++ ": " ++ escape (Text.joined " → " (cycle.map (stemOf r)))

def unusedLine (u : UnusedExport String) : String :=
  "      - " ++ escape (Location.ofText u.file).name ++ ": export '" ++ escape u.name ++
    "' (line " ++ toString u.line ++ ")"

def sayCycles (r : Report String) : Script Unit := do
  unless r.cycles.isEmpty do
    say ("   🔄 Cyclic dependencies: " ++ toString r.cycles.length)
    for (cycle, i) in (r.cycles.take listedCycles).zipIdx do
      say (cycleLine r (i + 1) cycle)

def sayUnused (r : Report String) : Script Unit := do
  unless r.unusedExports.isEmpty do
    say ("   🗑️  Unused exports: " ++ toString r.unusedExports.length)
    for u in r.unusedExports.take listedExports do
      say (unusedLine u)

/-- The settings of the analysis, with the report where the request wants it. -/
def settingsFor (q : AnalyzeRequest) (w : World) (s : Settings) : AnalysisSettings :=
  match q.output with
  | none => s.analysis
  | some l => { s.analysis with reportPath := (Location.resolve w.here l).text }

/-- Runs the analysis. Directories that were made for the report stay if it cannot be saved. -/
def analyse (root : Location) (q : AnalyzeRequest) (s : AnalysisSettings) : Script AnalysisRun := do
  let sink := q.memory.map fun l => ⟨l, Projection.defaultLimit⟩
  let w ← world
  match Analysis.run w root s sink true with
  | .ok (run, w) => do
    setWorld w
    return run
  | .error (.fault f) => throw (.failure (.fault f))
  | .error (.file e) => do
    setWorld (w.dirsMade (Analysis.reportLocation root s).parent)
    throw (.failure (.file e))

def command (q : AnalyzeRequest) : Script Unit := do
  let root ← projectRoot q.root
  let all ← settings root q.settings
  let s := settingsFor q (← world) all
  let source := root.append (Location.ofText s.sourceRoot)
  unless (← world).hasDir source do
    complain ("[red]❌ Source directory not found:[/red] " ++ escape source.text)
    complain "   This tool is designed for projects with a src/ directory structure."
    exit 1
  say ("[bold cyan]📂 Analyzing dependencies in " ++ escape root.text ++ "...[/bold cyan]\n")
  let run ← analyse root q s
  let r := run.report
  sayTable (← filesTable run.discovery)
  say ("\n📄 Report saved: " ++ escape ((run.reportPath.map Location.text).getD ""))
  say ("   🔗 Nodes (files): " ++ toString r.summary.totalNodes)
  say ("   ➡️  Edges (imports): " ++ toString r.summary.totalEdges)
  sayCycles r
  sayUnused r
  say "\n[green]✅ Dependency analysis completed.[/green] Validate with: dg validate"

end ImportAtlas.Command.Analyze
