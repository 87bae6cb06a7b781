import ImportAtlas.Command.Request
import ImportAtlas.Command.Shell

/-!
# Default settings as a command

Writes the default settings into a project, and leaves a file that is there alone unless told.
-/

namespace ImportAtlas.Command.Init

open Console.Markup (escape)
open Script

def command (q : InitRequest) : Script Unit := do
  let root ← projectRoot q.root
  let target := root.child Settings.fileName
  if (← world).has target && !q.force then
    say (Settings.fileName ++ " already exists (use --force to overwrite).")
  else
    match (← world).writeText target Settings.default.document with
    | .ok w => setWorld w
    | .error e => throw (.failure (.file e))
    say ("Wrote " ++ escape target.text)

end ImportAtlas.Command.Init
