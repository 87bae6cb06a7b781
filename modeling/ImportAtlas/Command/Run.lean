import ImportAtlas.Command.Analyze
import ImportAtlas.Command.Export
import ImportAtlas.Command.Init
import ImportAtlas.Command.Types
import ImportAtlas.Command.Validate

/-!
# Running a command

The whole program as a function of its arguments and the world.
-/

namespace ImportAtlas.Command

def versionText : String := "DepGraph CLI v0.3.0"

def Request.command : Request → Script Unit
  | .version => Script.put (versionText ++ "\n")
  | .analyze q => Analyze.command q
  | .types q => Types.command q
  | .export q => Export.command q
  | .init q => Init.command q
  | .validate q => Validate.command q

def run (args : List String) (w : World) : Finished :=
  match Request.read args with
  | .ok q => q.command.run w
  | .error e => ⟨.usage e, ⟨w, "", ""⟩⟩

end ImportAtlas.Command
