import ImportAtlas.Command.Usage
import ImportAtlas.Console.Table
import ImportAtlas.Report.Store
import ImportAtlas.Settings.File

/-!
# The shell around a command

A command changes the world and prints on two channels. It stops with an exit code, with wrong
usage, or with a failure that nobody handles; what was printed and written until then stays.
-/

namespace ImportAtlas.Command

inductive Failure where
  | fault (f : Fault)
  | file (e : FileError)
  /-- The home directory of another person is not known. -/
  | noHome
  /-- A text to print closes a style that is not open. -/
  | markup (e : Console.Markup.MarkupError)
  /-- A label is no text and cannot be printed. -/
  | unprintable
  deriving DecidableEq, Repr

def Failure.message : Failure → String
  | .fault f => f.reason
  | .file .notFound => "No such file or directory"
  | .file .notADirectory => "Not a directory"
  | .file .isADirectory => "Is a directory"
  | .file .alreadyExists => "File exists"
  | .file (.notUtf8 e) => e.message
  | .noHome => "Could not determine home directory."
  | .markup e => "closing tag '[" ++ e.closing ++ "]' doesn't match any open tag"
  | .unprintable => "a label is no text"

inductive Stop where
  | exit (code : Nat)
  | usage (e : UsageError)
  | failure (f : Failure)
  deriving DecidableEq, Repr

/-- The exit code: 2 for wrong usage, 1 for a failure. -/
def Stop.code : Stop → Nat
  | .exit code => code
  | .usage _ => 2
  | .failure _ => 1

/-- What is said about the stop, beyond what the command printed. -/
def Stop.message? : Stop → Option String
  | .exit _ => none
  | .usage e => some e.message
  | .failure f => some f.message

structure Shell where
  world : World
  out : String
  err : String

/-- A command that gives an `α` or stops. -/
abbrev Script := ExceptT Stop (StateM Shell)

namespace Script

/-- Prints on the ordinary channel. -/
def put (s : String) : Script Unit := modify fun sh => { sh with out := sh.out ++ s }

/-- Prints on the channel for problems. -/
def putErr (s : String) : Script Unit := modify fun sh => { sh with err := sh.err ++ s }

/-- The text that lines show; bad markup is a failure. -/
def shown (ls : Except Console.Markup.MarkupError (List (List Char))) : Script String :=
  match ls with
  | .ok ls => pure (Console.printed ls)
  | .error e => throw (.failure (.markup e))

def say (markup : String) : Script Unit := do put (← shown (Console.lines markup))

/-- Prints a marked up text as a problem. -/
def complain (markup : String) : Script Unit := do putErr (← shown (Console.lines markup))

def sayTable (t : Console.Table) : Script Unit := do put (← shown t.draw)

def world : Script World := return (← get).world

def setWorld (w : World) : Script Unit := modify fun sh => { sh with world := w }

def exit {α : Type} (code : Nat) : Script α := throw (.exit code)

/-- Writes a file, making the directories around it; those stay if the file cannot be written. -/
def save (l : Location) (text : String) : Script Unit := do
  let w ← world
  match w.save l text with
  | .ok w => setWorld w
  | .error e => do
    setWorld (w.dirsMade l.parent)
    throw (.failure (.file e))

/-- The project root that an argument names: a directory, as an absolute location. -/
def projectRoot (argument : String) : Script Location := do
  let w ← world
  let l := Location.ofText argument
  if argument ≠ "" ∧ w.hasDir l then return Location.resolve w.here l
  else throw (.usage (.notADirectory argument))

def settings (root : Location) (file : Option Location) : Script Settings := do
  match Settings.load (← world) root file with
  | .ok s => return s
  | .error (.failure (.refused e)) => throw (.usage (.badSettings e))
  | .error (.failure (.fault f)) => throw (.failure (.fault f))
  | .error (.notUtf8 e) => throw (.failure (.file (.notUtf8 e)))
  | .error .noHome => throw (.failure .noHome)

/-- The location of the report: the one asked for, else that of the settings. -/
def reportIn (w : World) (asked : Option Location) (s : Settings) : Location :=
  asked.getD (w.here.append (Location.ofText s.analysis.reportPath))

end Script

structure Finished where
  stop : Stop
  shell : Shell

/-- Runs a command in a world. A command that comes to its end exits with code 0. -/
def Script.run (a : Script Unit) (w : World) : Finished :=
  match (ExceptT.run a).run ⟨w, "", ""⟩ with
  | (.ok (), sh) => ⟨.exit 0, sh⟩
  | (.error stop, sh) => ⟨stop, sh⟩

end ImportAtlas.Command
