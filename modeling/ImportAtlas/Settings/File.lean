import ImportAtlas.Settings.Basic
import ImportAtlas.Settings.Toml.Document
import ImportAtlas.World.Basic

/-!
# Settings files

Settings are read from the file that is asked for, else from the file that the environment names,
else from the project's own file; without a file the defaults apply. `document` is the text of the
default settings.
-/

namespace ImportAtlas.Settings

inductive LoadError where
  | failure (f : SettingsFailure)
  /-- The file is no UTF-8 text. -/
  | notUtf8 (e : Text.Utf8Error)
  /-- The home directory of another person is not known. -/
  | noHome
  deriving DecidableEq, Repr

def fileName : String := "depgraph.toml"

def fileFor (w : World) (root : Location) : Except LoadError Location :=
  match w.settingsFile with
  | none | some "" => .ok (root.child fileName)
  | some name =>
    match w.expandHome? (Location.ofText name) with
    | some l => .ok l
    | none => .error .noHome

def ofText (path : String) (text : String) : Except LoadError Settings :=
  match Toml.parse text with
  | .error .malformed => .error (.failure (.refused (.unreadable path)))
  | .error (.fault f) => .error (.failure (.fault f))
  | .ok t =>
    match ofTable t with
    | .ok s => .ok s
    | .error f => .error (.failure f)

def load (w : World) (root : Location) (file : Option Location) : Except LoadError Settings := do
  let l ← match file with
    | some l => pure l
    | none => fileFor w root
  if w.has l then
    match w.readText l with
    | .error (.notUtf8 e) => throw (.notUtf8 e)
    | .error _ => throw (.failure (.refused (.unreadable l.text)))
    | .ok text => ofText l.text text
  else return default

def quoted (s : String) : String := "\"" ++ s ++ "\""

/-- A list of texts, each with a comma after it. -/
def listText (ss : List String) : String :=
  "[ " ++ String.intercalate " " (ss.map fun s => quoted s ++ ",") ++ "]"

/-- A label as text; empty if it is none. -/
def labelText : Json → String
  | .str l => l
  | _ => ""

def subtreeLines (s : Subtree) : List String :=
  ["[[analysis.subtrees]]", "label = " ++ quoted (labelText s.label),
    "path = " ++ quoted s.path, "category = " ++ quoted s.category,
    "extensions = " ++ listText s.extensions, ""]

def document (s : Settings) : String :=
  let a := s.analysis
  let t := s.thresholds
  String.intercalate "\n" (["[analysis]", "source_root = " ++ quoted a.sourceRoot,
    "alias_prefixes = " ++ listText a.aliases, "extensions = " ++ listText a.extensions,
    "exclude = " ++ listText a.exclude, "report_path = " ++ quoted a.reportPath] ++
    a.subtrees.flatMap subtreeLines ++
    ["[validation]", "cycles_threshold = " ++ t.cycles.text,
      "unused_threshold = " ++ t.unused.text,
      "max_avg_imports_per_file = " ++ t.averageImports.text,
      "stale_hours = " ++ t.staleHours.text, ""])

end ImportAtlas.Settings
