import ImportAtlas.Command.Request
import ImportAtlas.Command.Shell
import ImportAtlas.Types.Report

/-!
# The report on types as a command

Keeps the report and prints its summary with the first unused types.
-/

namespace ImportAtlas.Command.Types

open Console.Markup (escape)
open Script

def listedTypes : Nat := 10

def unusedLine (t : TypeDefinition) : String :=
  "   └─ " ++ escape t.name ++ " (" ++ t.kind.keyword ++ ") in " ++ escape t.fileName ++ ":" ++
    toString t.line

/-- The report; a missing directory ends the command. -/
def report (root : Location) : Script TypeReport := do
  let directory := root.append (Location.ofText TypeReport.defaultDirectory)
  match TypeReport.build (← world) root directory TypeReport.defaultExclude with
  | .ok r => return r
  | .error (.fault f) => throw (.failure (.fault f))
  | .error e@(.noDirectory _) =>
    complain ("[red]❌ " ++ escape e.message ++ "[/red]")
    exit 1

def command (q : TypesRequest) : Script Unit := do
  let root ← projectRoot q.root
  let r ← report root
  let target := q.output.getD (root.append (Location.ofText TypeReport.defaultPath))
  save target r.toJson.pretty
  let s := r.summary
  say ("📊 Total types analyzed: " ++ toString s.totalTypes)
  say ("   ✅ Used types: " ++ toString s.usedTypes)
  say ("   ⚠️  Unused types: " ++ toString (s.totalTypes - s.usedTypes))
  say ("   📊 Usage rate: " ++ Binary.fixedText 1 s.useRate ++ "%")
  for t in r.unused.take listedTypes do
    say (unusedLine t)
  say ("\n📄 Report saved: " ++ escape target.text)

end ImportAtlas.Command.Types
