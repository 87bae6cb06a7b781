import ImportAtlas.Json.Basic
import ImportAtlas.Json.Writer
import ImportAtlas.Text.Printable

/-!
# Values inside messages

A message shows a text as it is and any other value spelled out: `None`, `True`, numbers, and lists
and tables whose texts stand in quotes. A text is put into single quotes unless it holds one and no
double quote; what is not printable is escaped.
-/

namespace ImportAtlas.Json

variable {τ : Type}

def apostrophe : Char := '\x27'

def hexDigits (width n : Nat) : List Char :=
  (List.range width).map fun i => hexDigit (n / Nat.pow 16 (width - 1 - i) % 16)

def spellChar (mark c : Char) : List Char :=
  if c == mark || c == '\\' then ['\\', c]
  else if c == '\n' then ['\\', 'n']
  else if c == '\r' then ['\\', 'r']
  else if c == '\t' then ['\\', 't']
  else if Text.isPrintable c then [c]
  else if c.toNat < 0x100 then '\\' :: 'x' :: hexDigits 2 c.toNat
  else if c.toNat < 0x10000 then '\\' :: 'u' :: hexDigits 4 c.toNat
  else '\\' :: 'U' :: hexDigits 8 c.toNat

/-- A character or half of a pair in a quoted text. -/
def spellPoint (mark : Char) : Point → List Char
  | .char c => spellChar mark c
  | .half u => '\\' :: 'u' :: hexDigits 4 u.toNat

/-- A text in quotes, as messages show it. -/
def spellText [Wording τ] (t : τ) : String :=
  let ps := points (Wording.units t)
  let mark := if ps.contains (.char apostrophe) && !ps.contains (.char '"') then '"' else apostrophe
  String.ofList (mark :: ps.flatMap (spellPoint mark) ++ [mark])

mutual

def spellInner [Wording τ] : Json τ → String
  | .null => "None"
  | .bool true => "True"
  | .bool false => "False"
  | .num n => n.text
  | .str s => spellText s
  | .arr [] => "[]"
  | .arr (v :: vs) => "[" ++ spellInner v ++ spellItems vs ++ "]"
  | .obj [] => "\x7b\x7d"
  | .obj ((k, v) :: ms) =>
    "\x7b" ++ spellText k ++ ": " ++ spellInner v ++ spellMembers ms ++ "\x7d"

def spellItems [Wording τ] : List (Json τ) → String
  | [] => ""
  | v :: vs => ", " ++ spellInner v ++ spellItems vs

def spellMembers [Wording τ] : List (τ × Json τ) → String
  | [] => ""
  | (k, v) :: ms => ", " ++ spellText k ++ ": " ++ spellInner v ++ spellMembers ms

end

/-- A value in a message. -/
def spell [Wording τ] : Json τ → τ
  | .str s => s
  | v => Wording.ofString (spellInner v)

end ImportAtlas.Json
