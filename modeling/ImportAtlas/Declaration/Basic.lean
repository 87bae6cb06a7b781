/-!
# Declarations of a source file

What one file imports and exports, by name. A file's declarations keep their source order.
-/

namespace ImportAtlas

variable {τ σ : Type}

/-- One imported binding. -/
structure Import (τ : Type) where
  /-- The path of the importing file. -/
  file : τ
  name : τ
  specifier : τ
  /-- Whether the specifier points into the project. -/
  isRelative : Bool
  line : Int
  deriving DecidableEq, Repr

structure Export (τ : Type) where
  /-- The path of the exporting file. -/
  file : τ
  name : τ
  line : Int
  deriving DecidableEq, Repr

structure FileAnalysis (τ : Type) where
  name : τ
  path : τ
  category : τ
  imports : List (Import τ)
  exports : List (Export τ)
  deriving DecidableEq, Repr

/-- Changes every label. -/
def Import.map (f : τ → σ) (i : Import τ) : Import σ :=
  ⟨f i.file, f i.name, f i.specifier, i.isRelative, i.line⟩

def Export.map (f : τ → σ) (e : Export τ) : Export σ := ⟨f e.file, f e.name, e.line⟩

def FileAnalysis.map (f : τ → σ) (a : FileAnalysis τ) : FileAnalysis σ :=
  ⟨f a.name, f a.path, f a.category, a.imports.map (·.map f), a.exports.map (·.map f)⟩

end ImportAtlas
