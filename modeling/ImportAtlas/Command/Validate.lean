import ImportAtlas.Command.Request
import ImportAtlas.Command.Shell
import ImportAtlas.Json.Spelling

/-!
# The gate as a command

Prints the findings as problems and, unless it is to be quiet, the thresholds and what was
measured. The verdict is the exit code.
-/

namespace ImportAtlas.Command.Validate

open Console.Markup (escape)
open Script
open Gate

def listedDetails : Nat := 5

/-- The rule around the verdict. -/
def rule : String := String.ofList (List.replicate 60 '=')

/-- The thresholds of the settings, with those of the request in their place. -/
def thresholdsFor (q : ValidateRequest) (t : Thresholds) : Thresholds :=
  ⟨q.cycles.getD t.cycles, q.unused.getD t.unused, q.averageImports.getD t.averageImports,
    q.staleHours.getD t.staleHours⟩

/-- A number in six digits. -/
def brief (n : Number) : Script String :=
  match n.toFloat? with
  | some x => return Binary.briefText x
  | none => throw (.failure (.fault .outOfRange))

def sayThresholds (report : Location) (t : Thresholds) : Script Unit := do
  say "[bold cyan]🛡️  Dependency Graph Validator[/bold cyan]\n"
  say ("   Report path: " ++ escape report.text)
  say ("   Cycles threshold: " ++ t.cycles.text)
  say ("   Unused threshold: " ++ t.unused.text)
  say ("   Max imports per file: " ++ (← brief t.averageImports))
  say ("   Stale hours: " ++ (← brief t.staleHours) ++ "\n")

def complainFinding (f : Finding) : Script Unit := do
  match f.severity with
  | .critical => complain ("[red]❌ CRITICAL:[/red] " ++ escape f.message)
  | .warning => complain ("[yellow]⚠️  WARNING:[/yellow] " ++ escape f.message)
  for d in f.details.take listedDetails do
    complain ("      - " ++ escape d)
  if listedDetails < f.details.length then
    complain ("      ... and " ++ toString (f.details.length - listedDetails) ++ " more")

/-- The measured values in the order of the table, with what they are called there. -/
def metricNames : List (String × String) :=
  [("nodes", "Nodes (files)"), ("edges", "Edges (imports)"),
   ("avg_imports_per_file", "Average imports per file"), ("cycles", "Cyclic dependencies"),
   ("unused_exports", "Unused exports"), ("age_hours", "Report age (hours)"),
   ("type_files", "Type definition files")]

def metricsTable (m : Metrics) : Console.Table where
  title := "Graph Metrics"
  columns := [⟨"Metric", false⟩, ⟨"Value", true⟩]
  rows := metricNames.filterMap fun (key, name) =>
    (m.entries.lookup key).map fun v => [name, v.spell]

def sayVerdict (r : Result) (quiet : Bool) : Script Unit := do
  say rule
  match r.verdict with
  | .failed =>
    complain "[bold red]❌ DEPENDENCY VALIDATION: FAILED[/bold red]"
    complain ("   Critical errors: " ++ toString r.criticals.length)
    complain "   Commit blocked - fix critical issues first"
  | .passedWithWarnings =>
    say "[bold yellow]⚠️  DEPENDENCY VALIDATION: PASSED WITH WARNINGS[/bold yellow]"
    say ("   Warnings: " ++ toString r.warnings.length)
    say "   Commit allowed but consider fixing warnings"
  | .passed =>
    unless quiet do
      say "[bold green]✅ DEPENDENCY VALIDATION: PASSED[/bold green]"
      say "   Graph is healthy and ready for commit"
  say rule

/-- Applies the gate; a missing or malformed report ends the command. -/
def judge (report : Location) (t : Thresholds) : Script Result := do
  match ReportStore.validate ⟨report⟩ t (← world) with
  | .ok r => return r
  | .error (.fault f) => throw (.failure (.fault f))
  | .error e@(.missing _) =>
    complain ("[red]❌ " ++ escape e.message ++ "[/red]")
    complain "   💡 Run: dg analyze   (then commit your changes)"
    exit 1
  | .error e@(.malformed path _) =>
    complain ("[red]❌ " ++ escape e.message ++ "[/red]")
    complain ("   💡 Delete " ++ escape path ++ " and run: dg analyze")
    exit 1

def command (q : ValidateRequest) : Script Unit := do
  let w ← world
  let s ← settings w.here q.settings
  let report := reportIn w q.report s
  let t := thresholdsFor q s.thresholds
  unless q.quiet do
    sayThresholds report t
  let r ← judge report t
  for f in r.findings do
    complainFinding f
  unless q.quiet do
    sayTable (metricsTable r.metrics)
  sayVerdict r q.quiet
  exit r.exitCode

end ImportAtlas.Command.Validate
