import ImportAtlas.Declaration.Import
import ImportAtlas.Label
import ImportAtlas.Path

/-!
# Resolving specifiers

A specifier is resolved by text alone: from the importing directory or, behind an alias, from the
source root it names a base path, the base path names candidate files in a fixed order, and the
first candidate among the known paths is what it resolves to.
-/

namespace ImportAtlas

inductive SpecifierKind where
  /-- Behind an alias, from the source root. -/
  | aliased
  /-- From the importing directory. -/
  | relative
  /-- The name of a package. -/
  | bare
  deriving DecidableEq, Repr

structure Resolver where
  known : List String
  extensions : List String
  aliases : List String
  /-- Without slashes at either end. -/
  sourceRoot : String

namespace Resolver

/-- Extensions that a specifier may leave out. -/
def defaultExtensions : List String := [".ts", ".tsx"]

def defaultAliases : List String := ["@/"]

/-- The directory that aliases stand for. -/
def defaultSourceRoot : String := "src"

/-- A resolver whose source root may be written with slashes at either end. -/
def make (known extensions aliases : List String) (sourceRoot : String) : Resolver :=
  ⟨known, extensions, aliases, Path.trimSlashes sourceRoot⟩

def aliasOf? (r : Resolver) (specifier : String) : Option String :=
  r.aliases.find? (Text.beginsWith specifier)

def kindOf (r : Resolver) (specifier : String) : SpecifierKind :=
  if (r.aliasOf? specifier).isSome then .aliased
  else if Text.beginsWith specifier "." then .relative
  else .bare

def withoutAlias (lead specifier : String) : String :=
  String.ofList (specifier.toList.drop lead.length)

theorem withoutAlias_append (lead rest : String) : withoutAlias lead (lead ++ rest) = rest := by
  unfold withoutAlias
  rw [String.toList_append, ← String.length_toList, List.drop_left, String.ofList_toList]

/-- The target without its extension; none for a package. -/
def base? (r : Resolver) (specifier directory : String) : Option String :=
  match r.aliasOf? specifier with
  | some a => some (Path.normalize (Path.join r.sourceRoot (withoutAlias a specifier)))
  | none =>
    if Text.beginsWith specifier "." then some (Path.normalize (Path.join directory specifier))
    else none

/-- The files that a base path may mean: itself with an extension, then its index file. -/
def filesAt (r : Resolver) (base : String) : List String :=
  r.extensions.map (base ++ ·) ++ r.extensions.map fun ext => Path.join base ("index" ++ ext)

/-- The files that a specifier may mean, in order of preference. -/
def candidates (r : Resolver) (specifier directory : String) : List String :=
  match r.base? specifier directory with
  | some base => r.filesAt base
  | none => []

def resolve (r : Resolver) (specifier directory : String) : Option String :=
  (r.candidates specifier directory).find? r.known.contains

/-- What a specifier in the file `importer` resolves to. -/
def resolveFrom (r : Resolver) (specifier importer : String) : Option String :=
  r.resolve specifier (Path.dirname importer)

/-- What a specifier means when both labels are texts. -/
def target? {τ : Type} [Label τ] (r : Resolver) (specifier importer : τ) : Option τ := do
  let s ← Label.text? specifier
  let p ← Label.text? importer
  (r.resolveFrom s p).map Label.ofText

end Resolver

end ImportAtlas
