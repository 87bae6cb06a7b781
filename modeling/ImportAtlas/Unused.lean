import ImportAtlas.Category
import ImportAtlas.Graph.Basic

/-!
# Exports that nothing imports

An export counts as used when some import of the same name that points into the project reaches
its file: behind an alias by category and file name, otherwise by the candidates of its specifier.
Imports are looked up by name.
-/

namespace ImportAtlas

variable {τ σ : Type}

structure UnusedExport (τ : Type) where
  file : τ
  name : τ
  line : Int
  deriving DecidableEq, Repr

def UnusedExport.map (f : τ → σ) (u : UnusedExport τ) : UnusedExport σ := ⟨f u.file, f u.name, u.line⟩

/-- Imports by name, in order of first appearance. -/
abbrev ImportIndex (τ : Type) := List (τ × List (Import τ))

namespace ImportIndex

def add [BEq τ] (i : Import τ) : ImportIndex τ → ImportIndex τ
  | [] => [(i.name, [i])]
  | (n, is) :: rest => if n == i.name then (n, is ++ [i]) :: rest else (n, is) :: add i rest

def build [BEq τ] (analyses : List (FileAnalysis τ)) : ImportIndex τ :=
  (analyses.flatMap (·.imports)).foldl (fun index i => add i index) []

def named [BEq τ] (index : ImportIndex τ) (name : τ) : List (Import τ) :=
  match index.find? (·.1 == name) with
  | some entry => entry.2
  | none => []

end ImportIndex

namespace Unused

/-- Whether an import behind an alias names a file of the given category and name. -/
def aliasReaches (segments : Category.Segments) (rest : String) (category name : Option String) :
    Bool :=
  let parts := Path.segments rest
  let wanted := Category.ofSegment segments (parts.head?.getD "")
  let last := parts.getLast?.getD ""
  category == some wanted && name.any fun n => last == n || last == (Path.splitExtension n).1

def reaches [Label τ] (r : Resolver) (segments : Category.Segments) (i : Import τ)
    (a : FileAnalysis τ) : Bool :=
  match Label.text? i.specifier with
  | none => false
  | some s =>
    match r.aliasOf? s with
    | some p =>
      aliasReaches segments (Resolver.withoutAlias p s) (Label.text? a.category) (Label.text? a.name)
    | none =>
      match Label.text? i.file, Label.text? a.path with
      | some importer, some path => (r.candidates s (Path.dirname importer)).contains path
      | _, _ => false

def isUsed [Label τ] (r : Resolver) (segments : Category.Segments) (index : ImportIndex τ)
    (name : τ) (a : FileAnalysis τ) : Bool :=
  (index.named name).any fun i => i.isRelative && reaches r segments i a

/-- The unused exports, in file order and then export order. -/
def find [Label τ] (r : Resolver) (segments : Category.Segments)
    (analyses : List (FileAnalysis τ)) : List (UnusedExport τ) :=
  let index := ImportIndex.build analyses
  analyses.flatMap fun a =>
    (a.exports.filter fun e => !isUsed r segments index e.name a).map fun e =>
      ⟨a.path, e.name, e.line⟩

end Unused

end ImportAtlas
