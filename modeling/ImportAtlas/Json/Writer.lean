import ImportAtlas.Json.Basic

/-!
# Writing a JSON text

Texts are written in printable ASCII: any other code unit becomes a `\u` escape, unless it has a
short escape. A document is written over several lines with two spaces a level (`pretty`), a memory
line and an answer on one line (`line`). Whole numbers with more digits than are read are not
written either (`isWritable`).
-/

namespace ImportAtlas.Json

variable {τ : Type}

def hexDigit (n : Nat) : Char := if n < 10 then Char.ofNat (48 + n) else Char.ofNat (87 + n)

/-- A code unit as four hexadecimal digits after `\u`. -/
def unitEscape (u : UInt16) : List Char :=
  ['\\', 'u', hexDigit (u.toNat / 4096 % 16), hexDigit (u.toNat / 256 % 16),
    hexDigit (u.toNat / 16 % 16), hexDigit (u.toNat % 16)]

def escapeUnit (u : UInt16) : List Char :=
  match Char.ofNat u.toNat with
  | '"' => ['\\', '"']
  | '\\' => ['\\', '\\']
  | '\n' => ['\\', 'n']
  | '\r' => ['\\', 'r']
  | '\t' => ['\\', 't']
  | '\x08' => ['\\', 'b']
  | '\x0c' => ['\\', 'f']
  | c => if 32 ≤ u.toNat && u.toNat < 127 then [c] else unitEscape u

def quote [Wording τ] (t : τ) : String :=
  String.ofList ('"' :: (Wording.units t).flatMap escapeUnit ++ ['"'])

/-- A number; infinities and the value that is no number are written as words. -/
def numberText : Number → String
  | .int i => toString i
  | .float x =>
    match Binary.ofFloat x with
    | .nan => "NaN"
    | .infinite s => Binary.signText s ++ "Infinity"
    | .finite .. => Binary.exactText x

/-- Whether a number can be written: a whole number of up to `Number.digitLimit` digits, or any
double. -/
def numberWritable : Number → Bool
  | .int i => (Nat.toDigits 10 i.natAbs).length ≤ Number.digitLimit
  | .float _ => true

/-- How the parts of a value are set apart. -/
structure Style where
  /-- What stands after an opening bracket, before a closing one and after a comma. -/
  breakAt : Nat → String
  /-- What stands after a comma, before the break. -/
  afterComma : String

/-- A line for each part, two spaces a level. -/
def Style.lines : Style :=
  ⟨fun level => "\n" ++ String.ofList (List.replicate (2 * level) ' '), ""⟩

/-- All on one line, a space after each comma. -/
def Style.oneLine : Style := ⟨fun _ => "", " "⟩

mutual

def isWritable : Json τ → Bool
  | .num n => numberWritable n
  | .arr vs => itemsWritable vs
  | .obj ms => membersWritable ms
  | _ => true

def itemsWritable : List (Json τ) → Bool
  | [] => true
  | v :: vs => isWritable v && itemsWritable vs

def membersWritable : List (τ × Json τ) → Bool
  | [] => true
  | (_, v) :: ms => isWritable v && membersWritable ms

end

mutual

/-- The text of a value whose closing bracket stands at `level`. -/
def render [Wording τ] (st : Style) (level : Nat) : Json τ → String
  | .null => "null"
  | .bool true => "true"
  | .bool false => "false"
  | .num n => numberText n
  | .str s => quote s
  | .arr [] => "[]"
  | .arr (v :: vs) =>
    "[" ++ st.breakAt (level + 1) ++ render st (level + 1) v ++ renderItems st (level + 1) vs ++
      st.breakAt level ++ "]"
  | .obj [] => "\x7b\x7d"
  | .obj ((k, v) :: ms) =>
    "\x7b" ++ st.breakAt (level + 1) ++ quote k ++ ": " ++ render st (level + 1) v ++
      renderMembers st (level + 1) ms ++ st.breakAt level ++ "\x7d"

def renderItems [Wording τ] (st : Style) (level : Nat) : List (Json τ) → String
  | [] => ""
  | v :: vs => "," ++ st.afterComma ++ st.breakAt level ++ render st level v ++ renderItems st level vs

def renderMembers [Wording τ] (st : Style) (level : Nat) : List (τ × Json τ) → String
  | [] => ""
  | (k, v) :: ms =>
    "," ++ st.afterComma ++ st.breakAt level ++ quote k ++ ": " ++ render st level v ++
      renderMembers st level ms

end

/-- The text of a saved document. -/
def pretty [Wording τ] (v : Json τ) : String := render .lines 0 v

def line [Wording τ] (v : Json τ) : String := render .oneLine 0 v

end ImportAtlas.Json
