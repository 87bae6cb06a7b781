import ImportAtlas.Fault
import ImportAtlas.Json.Basic

/-!
# TOML documents

Settings are written in TOML. A document is a table whose values are those of JSON. A date or a time
is no such value and is held as null. That is a limit of this reader: every other setting refuses a
date as it refuses null, but a subtree may be labelled with anything, and one that is labelled with
a date goes by its path here.

A text is read in two passes. The first goes through it character by character and lays it out in
lines, one statement each (`Toml.Layout`). The second reads the lines: the heading of a table, or a
key with its value (`Toml.Document`).
-/

namespace ImportAtlas.Toml

abbrev Table := List (String × Json)

/-- Kinds of values that an array does not mix. -/
inductive Kind where
  | bool
  | text
  | int
  | float
  | date
  | time
  | array
  | table
  deriving DecidableEq, Repr

inductive ReadError where
  /-- The text is no document. -/
  | malformed
  /-- The text asks for something that its values cannot do, or stops short. -/
  | fault (f : Fault)
  deriving DecidableEq, Repr

abbrev Reading (α : Type) := Except ReadError α

def malformed {α : Type} : Reading α := .error .malformed

/-- A value is asked to do what its kind cannot. -/
def wrongKind {α : Type} : Reading α := .error (.fault .wrongKind)

/-- The text stops short. -/
def pastEnd {α : Type} : Reading α := .error (.fault .pastEnd)

end ImportAtlas.Toml
