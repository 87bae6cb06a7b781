import ImportAtlas.Gate.Rules
import ImportAtlas.Json.Reader
import ImportAtlas.Json.Writer
import ImportAtlas.Report.Document
import ImportAtlas.World.Basic

/-!
# Stored reports

A report is kept as one document, and saving replaces the document. A document that cannot be used
is missing or malformed, with a reason; only numbers that cannot be converted are faults of their
own.
-/

namespace ImportAtlas

inductive Malformed where
  | notJson
  | notUtf8 (e : Text.Utf8Error)
  | notAnObject
  /-- Its members are not those of a report. -/
  | unexpected (f : Fault)
  /-- The gate cannot read it. -/
  | shape (e : Gate.ShapeError)
  deriving DecidableEq, Repr

def Malformed.message : Malformed → String
  | .notJson => "not JSON"
  | .notUtf8 e => e.message
  | .notAnObject => "top-level value is not an object"
  | .unexpected f => "unexpected structure (" ++ f.reason ++ ")"
  | .shape e => e.message

inductive ReportError where
  | missing (path : String)
  | malformed (path : String) (reason : Malformed)
  /-- A number in the document cannot be converted. -/
  | fault (f : Fault)
  deriving DecidableEq, Repr

def ReportError.message : ReportError → String
  | .missing path => "Dependency report not found: " ++ path
  | .malformed _ reason => "Invalid dependency report format: " ++ reason.message
  | .fault f => f.reason

inductive SaveError where
  | file (e : FileError)
  /-- A number in the document cannot be written. -/
  | fault (f : Fault)
  deriving DecidableEq, Repr

structure ReportStore where
  location : Location

namespace ReportStore

def exists? (s : ReportStore) (w : World) : Bool := w.hasFile s.location

/-- Replaces the document, making the directories around it first. -/
def save (s : ReportStore) (document : Json) (w : World) : Except SaveError World :=
  match w.makeDirs s.location.parent with
  | .error e => .error (.file e)
  | .ok w =>
    if document.isWritable then
      match w.writeText s.location document.pretty with
      | .ok w => .ok w
      | .error e => .error (.file e)
    else .error (.fault .badValue)

def loadRaw (s : ReportStore) (w : World) : Except ReportError Gate.Document :=
  let path := s.location.text
  match w.find s.location with
  | .ok (.file content) =>
    match FileTree.decode content with
    | .error e => .error (.malformed path (.notUtf8 e))
    | .ok text =>
      match Json.parse text with
      | .error .malformed => .error (.malformed path .notJson)
      | .error .tooManyDigits => .error (.fault .badValue)
      | .ok (.obj ms) => .ok ms
      | .ok _ => .error (.malformed path .notAnObject)
  | _ => .error (.missing path)

def load (s : ReportStore) (w : World) : Except ReportError (Report Json) := do
  let d ← s.loadRaw w
  match Report.ofJson (.obj d) with
  | .ok r => return r
  | .error (.outOfRange) => throw (.fault .outOfRange)
  | .error (.noOperation) => throw (.fault .noOperation)
  | .error f => throw (.malformed s.location.text (.unexpected f))

def validate (s : ReportStore) (t : Gate.Thresholds) (w : World) :
    Except ReportError Gate.Result := do
  let d ← s.loadRaw w
  match Gate.shapeError? d with
  | some e => throw (.malformed s.location.text (.shape e))
  | none =>
    match Gate.evaluate d t w.now with
    | .ok r => return r
    | .error f => throw (.fault f)

end ReportStore

end ImportAtlas
