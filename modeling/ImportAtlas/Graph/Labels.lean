import ImportAtlas.Json.Access
import ImportAtlas.Unused

/-!
# Graphs over untyped labels

Analyses that come from a document may carry labels that are no texts. The graph and the unused
exports of such analyses are those of the general definitions, unless an operation meets a label it
cannot use: a list or table where a key is needed, or anything but a text where a path is taken
apart. These functions find the first such label.
-/

namespace ImportAtlas

def firstFault? {α : Type} (f : α → Option Fault) (xs : List α) : Option Fault := xs.findSome? f

/-- A list or table cannot be a key. -/
def keyFault? (v : Json) : Option Fault := if v.isKey then none else some .wrongKind

/-- What goes wrong when the import is resolved from its file: the file's directory is taken
first, then the specifier is looked at. -/
def resolveFault? (path : Json) (i : Import Json) : Option Fault :=
  if i.isRelative then
    match Label.text? path, Label.text? i.specifier with
    | none, _ => some .wrongKind
    | _, none => some .noOperation
    | _, _ => none
  else none

def Graph.fault? (known : List Json) (analyses : List (FileAnalysis Json)) : Option Fault :=
  ((firstFault? keyFault? known).or (firstFault? (keyFault? ·.path) analyses)).or
    (firstFault? (fun a => firstFault? (resolveFault? a.path) a.imports) analyses)

/-- What goes wrong when it is asked whether an import reaches a file. -/
def Unused.reachFault? (r : Resolver) (segments : Category.Segments) (a : FileAnalysis Json)
    (i : Import Json) : Option Fault :=
  match Label.text? i.specifier with
  | none => some .noOperation
  | some s =>
    match r.aliasOf? s with
    | some p =>
      let first := (Path.segments (Resolver.withoutAlias p s)).head?.getD ""
      if Label.text? a.category = some (Category.ofSegment segments first) ∧
          Label.text? a.name = none then some .wrongKind
      else none
    | none =>
      if Text.beginsWith s "." ∧ Label.text? i.file = none then some .wrongKind else none

/-- The first fault before an import is found that reaches the file. -/
def Unused.searchFault? (r : Resolver) (segments : Category.Segments) (a : FileAnalysis Json) :
    List (Import Json) → Option Fault
  | [] => none
  | i :: is =>
    if i.isRelative then
      match reachFault? r segments a i with
      | some f => some f
      | none => if reaches r segments i a then none else searchFault? r segments a is
    else searchFault? r segments a is

def Unused.fault? (r : Resolver) (segments : Category.Segments)
    (analyses : List (FileAnalysis Json)) : Option Fault :=
  (firstFault? (fun a => firstFault? (keyFault? ·.name) a.imports) analyses).or
    (let index := ImportIndex.build analyses
     firstFault? (fun a => firstFault? (fun e =>
       (keyFault? e.name).or (searchFault? r segments a (index.named e.name))) a.exports) analyses)

end ImportAtlas
