import ImportAtlas.Command.Request
import ImportAtlas.Command.Shell

/-!
# Drawing as a command

Draws the graph of a stored report into a file.
-/

namespace ImportAtlas.Command.Export

open Console.Markup (escape)
open Script

def reportFor (q : ExportRequest) : Script Location := do
  match q.report with
  | some l => return l
  | none => do
    let w ← world
    return reportIn w none (← settings w.here none)

/-- The stored report; a missing or malformed one ends the command. -/
def load (l : Location) : Script (Report Json) := do
  match ReportStore.load ⟨l⟩ (← world) with
  | .ok r => return r
  | .error (.fault f) => throw (.failure (.fault f))
  | .error e =>
    complain ("[red]❌ " ++ escape e.message ++ "[/red]")
    exit 1

def command (q : ExportRequest) : Script Unit := do
  let r ← load (← reportFor q)
  let target := q.output.getD ((← world).here.child ("dependencies." ++ q.format.suffix))
  match r.draw q.format with
  | .error f => throw (.failure (.fault f))
  | .ok text => save target text
  say ("Exported graph to " ++ escape target.text)

end ImportAtlas.Command.Export
