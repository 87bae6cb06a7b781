import ImportAtlas.Command.Arguments
import ImportAtlas.Drawing.Export

/-!
# Requests

What the arguments ask for: the version, or one of five commands with its options.
-/

namespace ImportAtlas.Command

structure AnalyzeRequest where
  root : String
  output : Option Location
  settings : Option Location
  memory : Option Location
  deriving DecidableEq, Repr

structure TypesRequest where
  root : String
  output : Option Location
  deriving DecidableEq, Repr

structure ExportRequest where
  report : Option Location
  format : DrawingFormat
  output : Option Location
  deriving DecidableEq, Repr

structure InitRequest where
  root : String
  force : Bool
  deriving DecidableEq, Repr

structure ValidateRequest where
  report : Option Location
  cycles : Option Number
  unused : Option Number
  averageImports : Option Number
  staleHours : Option Number
  settings : Option Location
  quiet : Bool

inductive Request where
  | version
  | analyze (r : AnalyzeRequest)
  | types (r : TypesRequest)
  | export (r : ExportRequest)
  | init (r : InitRequest)
  | validate (r : ValidateRequest)

/-! ## Values of options -/

namespace Arguments

def location? (a : Arguments) (name : String) : Option Location :=
  (a.value? name).map Location.ofText

/-- The only other argument. -/
def single (a : Arguments) (fallback : String) : Except UsageError String :=
  match a.others with
  | [] => .ok fallback
  | [s] => .ok s
  | _ :: s :: _ => .error (.unexpectedArgument s)

def noOthers (a : Arguments) : Except UsageError Unit :=
  match a.others with
  | [] => .ok ()
  | s :: _ => .error (.unexpectedArgument s)

/-- The number that an option gives, which is not negative. -/
def number (a : Arguments) (name : String) (ofText? : String → Option Number) :
    Except UsageError (Option Number) :=
  match a.value? name with
  | none => .ok none
  | some text =>
    match ofText? text with
    | some n => if n.lt (.int 0) then .error (.badNumber name text) else .ok (some n)
    | none => .error (.badNumber name text)

end Arguments

def wholeNumber? (s : String) : Option Number := (Number.ofText? s).map .int

def double? (s : String) : Option Number := (Number.doubleOfText? s).map .float

/-! ## The commands -/

/-- The directory that a command works on if none is given. -/
def defaultRoot : String := "."

def AnalyzeRequest.read (args : List String) : Except UsageError AnalyzeRequest := do
  let a ← Arguments.read
    [⟨"output", some 'o', true⟩, ⟨"config", some 'c', true⟩, ⟨"memory-sink", none, true⟩] true args
  return ⟨← a.single defaultRoot, a.location? "output", a.location? "config",
    a.location? "memory-sink"⟩

def TypesRequest.read (args : List String) : Except UsageError TypesRequest := do
  let a ← Arguments.read [⟨"output", some 'o', true⟩] true args
  return ⟨← a.single defaultRoot, a.location? "output"⟩

def ExportRequest.read (args : List String) : Except UsageError ExportRequest := do
  let a ← Arguments.read
    [⟨"report-path", some 'r', true⟩, ⟨"format", some 'f', true⟩, ⟨"output", some 'o', true⟩] true
    args
  a.noOthers
  match DrawingFormat.ofName? (Text.lower ((a.value? "format").getD "dot")) with
  | some format => return ⟨a.location? "report-path", format, a.location? "output"⟩
  | none => throw .badFormat

def InitRequest.read (args : List String) : Except UsageError InitRequest := do
  let a ← Arguments.read [⟨"force", none, false⟩] true args
  return ⟨← a.single defaultRoot, a.has "force"⟩

def ValidateRequest.read (args : List String) : Except UsageError ValidateRequest := do
  let a ← Arguments.read
    [⟨"report-path", some 'r', true⟩, ⟨"cycles-threshold", none, true⟩,
     ⟨"unused-threshold", none, true⟩, ⟨"max-imports", none, true⟩, ⟨"stale-hours", none, true⟩,
     ⟨"config", some 'c', true⟩, ⟨"quiet", some 'q', false⟩] true args
  a.noOthers
  return {
    report := a.location? "report-path"
    cycles := ← a.number "cycles-threshold" wholeNumber?
    unused := ← a.number "unused-threshold" wholeNumber?
    averageImports := ← a.number "max-imports" double?
    staleHours := ← a.number "stale-hours" double?
    settings := a.location? "config"
    quiet := a.has "quiet" }

/-- Reads all arguments: options of the program, the name of a command, and its arguments. -/
def Request.read (args : List String) : Except UsageError Request := do
  let a ← Arguments.read [⟨"version", some 'v', false⟩, ⟨"verbose", none, false⟩] false args
  if a.has "version" then return .version
  match a.others with
  | [] => throw .missingCommand
  | name :: rest =>
    match name with
    | "analyze" => return .analyze (← AnalyzeRequest.read rest)
    | "types" => return .types (← TypesRequest.read rest)
    | "export" => return .export (← ExportRequest.read rest)
    | "init" => return .init (← InitRequest.read rest)
    | "validate" => return .validate (← ValidateRequest.read rest)
    | _ => throw (.noSuchCommand name)

end ImportAtlas.Command
