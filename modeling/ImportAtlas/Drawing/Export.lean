import ImportAtlas.Drawing.Basic
import ImportAtlas.Text.Case
import ImportAtlas.World.Basic

/-!
# Exporting drawings

A drawing is written to a file in the format that is asked for, in any case of letters.
-/

namespace ImportAtlas

inductive DrawingFormat where
  | dot
  | mermaid
  deriving DecidableEq, Repr

/-- The format with a name in small letters. -/
def DrawingFormat.ofName? : String → Option DrawingFormat
  | "dot" => some .dot
  | "mermaid" => some .mermaid
  | _ => none

def DrawingFormat.suffix : DrawingFormat → String
  | .dot => "dot"
  | .mermaid => "mmd"

inductive ExportError where
  | unsupported (name : String)
  | fault (f : Fault)
  | file (e : FileError)
  deriving DecidableEq, Repr

def unsupportedText (name : String) : String := "Unsupported export format: " ++ name

namespace Report

def draw (format : DrawingFormat) (r : Report Json) : Except Fault String :=
  match format with
  | .dot => r.toDot true
  | .mermaid => r.toMermaid true

def exportTo (l : Location) (formatName : String) (r : Report Json) (w : World) :
    Except ExportError World :=
  let name := Text.lower formatName
  match DrawingFormat.ofName? name with
  | none => .error (.unsupported name)
  | some format =>
    match r.draw format with
    | .error f => .error (.fault f)
    | .ok text =>
      match w.save l text with
      | .error e => .error (.file e)
      | .ok w => .ok w

end Report

end ImportAtlas
