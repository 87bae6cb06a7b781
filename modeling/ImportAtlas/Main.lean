import ImportAtlas.Command.Run
import ImportAtlas.World.Snapshot

/-!
# The program

The arguments are those of the command. The project comes as a snapshot on one line of standard
input, with `/project` as the working directory. What the command prints goes to the two standard
channels, followed by one line with the files that it wrote, if any.
-/

open ImportAtlas

/-- Runs a command on a snapshot and gives its exit code. -/
def main (args : List String) : IO UInt32 := do
  let snapshot ← (← IO.getStdin).getLine
  match World.ofSnapshot? ⟨1, ["project"]⟩ ⟨1, ["home"]⟩ snapshot with
  | none =>
    IO.eprintln "no snapshot of a project on standard input"
    return 2
  | some w =>
    let w := { w with settingsFile := ← IO.getEnv "DEPGRAPH_CONFIG" }
    let f := Command.run args w
    IO.print f.shell.out
    IO.eprint f.shell.err
    for m in f.stop.message? do
      IO.eprintln m
    match w.written f.shell.world with
    | [] => pure ()
    | files => IO.println (Json.obj files).line
    return UInt32.ofNat f.stop.code
