import ImportAtlas.Json.Wording
import ImportAtlas.Number

/-!
# Document values

The one dynamic type of the library: values of JSON and TOML documents. Their texts are strings,
unless a document is kept as it is to the last code unit. An object keeps its members in the order
in which their keys first appeared. `Json.same` is equality of values, under which numbers compare
by value and the truth values are one and zero.
-/

namespace ImportAtlas

/-- A document value with texts of type `τ`. -/
inductive Json (τ : Type := String) where
  | null
  | bool (b : Bool)
  | num (n : Number)
  | str (s : τ)
  | arr (items : List (Json τ))
  | obj (members : List (τ × Json τ))

namespace Json

variable {τ σ : Type}

abbrev int (i : Int) : Json τ := .num (.int i)

abbrev float (x : Float) : Json τ := .num (.float x)

abbrev nat (n : Nat) : Json τ := .num (.int n)

def texts (ss : List String) : Json := .arr (ss.map .str)

/-- Truth values and numbers as numbers. -/
def asNumber? : Json τ → Option Number
  | bool b => some (.int (if b then 1 else 0))
  | num n => some n
  | _ => none

mutual

def map (f : τ → σ) : Json τ → Json σ
  | .null => .null
  | .bool b => .bool b
  | .num n => .num n
  | .str s => .str (f s)
  | .arr xs => .arr (mapItems f xs)
  | .obj ms => .obj (mapMembers f ms)

def mapItems (f : τ → σ) : List (Json τ) → List (Json σ)
  | [] => []
  | v :: vs => map f v :: mapItems f vs

def mapMembers (f : τ → σ) : List (τ × Json τ) → List (σ × Json σ)
  | [] => []
  | (k, v) :: ms => (f k, map f v) :: mapMembers f ms

end

mutual

/-- Equality of values. The order of an object's members does not matter. -/
def same [DecidableEq τ] : Json τ → Json τ → Bool
  | .null, .null => true
  | .str s, .str t => s == t
  | .arr xs, .arr ys => sameItems xs ys
  | .obj ms, .obj ns => ms.length == ns.length && sameMembers ms ns
  | a, b =>
    match a.asNumber?, b.asNumber? with
    | some m, some n => m.same n
    | _, _ => false

def sameItems [DecidableEq τ] : List (Json τ) → List (Json τ) → Bool
  | [], [] => true
  | x :: xs, y :: ys => same x y && sameItems xs ys
  | _, _ => false

/-- Every member has an equal one under the same key. -/
def sameMembers [DecidableEq τ] : List (τ × Json τ) → List (τ × Json τ) → Bool
  | [], _ => true
  | (k, v) :: ms, ns =>
    (match ns.lookup k with
      | some w => same v w
      | none => false) && sameMembers ms ns

end

instance [DecidableEq τ] : BEq (Json τ) := ⟨same⟩

/-- Everything but lists and objects can be the key of a table. -/
def isKey : Json τ → Bool
  | .arr _ | .obj _ => false
  | _ => true

/-- Empty texts, lists and objects, zeros, null and false do not count. -/
def counts : Json → Bool
  | .null => false
  | .bool b => b
  | .num n => n.isNonzero
  | .str s => !s.isEmpty
  | .arr xs => !xs.isEmpty
  | .obj ms => !ms.isEmpty

/-- The members with `key` set: in its place if it is there, else at the end. -/
def setMember [DecidableEq τ] (key : τ) (value : Json τ) : List (τ × Json τ) → List (τ × Json τ)
  | [] => [(key, value)]
  | (k, v) :: ms => if k = key then (k, value) :: ms else (k, v) :: setMember key value ms

/-- The last value given for a key wins, in the place of the first. -/
def ofMembers [DecidableEq τ] (ms : List (τ × Json τ)) : Json τ :=
  .obj (ms.foldl (fun acc m => setMember m.1 m.2 acc) [])

def member? [DecidableEq τ] (key : τ) : Json τ → Option (Json τ)
  | .obj ms => ms.lookup key
  | _ => none

end Json

end ImportAtlas
