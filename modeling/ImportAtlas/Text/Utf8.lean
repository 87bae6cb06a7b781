/-!
# Flaws of UTF-8 texts

Where a text stops being UTF-8, and why: a byte that begins no character, a byte that does not
continue the character before it, or an end inside a character.
-/

namespace ImportAtlas.Text

inductive Utf8Flaw where
  | invalidStart
  | invalidContinuation
  | unexpectedEnd
  deriving DecidableEq, Repr

def Utf8Flaw.message : Utf8Flaw → String
  | .invalidStart => "invalid start byte"
  | .invalidContinuation => "invalid continuation byte"
  | .unexpectedEnd => "unexpected end of data"

/-- The bytes that are no character. -/
structure Utf8Error where
  place : Nat
  count : Nat
  first : UInt8
  flaw : Utf8Flaw
  deriving DecidableEq, Repr

def hexByte (b : UInt8) : String :=
  String.ofList [Nat.digitChar (b.toNat / 16), Nat.digitChar (b.toNat % 16)]

def Utf8Error.message (e : Utf8Error) : String :=
  let what :=
    if e.count = 1 then "byte 0x" ++ hexByte e.first ++ " in position " ++ toString e.place
    else "bytes in position " ++ toString e.place ++ "-" ++ toString (e.place + e.count - 1)
  "'utf-8' codec can't decode " ++ what ++ ": " ++ e.flaw.message

structure Utf8Reading where
  place : Nat
  first : UInt8
  /-- The bytes read so far. -/
  count : Nat
  /-- The bytes still to come. -/
  needed : Nat
  /-- The least value of the next byte. -/
  low : Nat
  /-- The greatest value of the next byte. -/
  high : Nat

namespace Utf8Reading

def start : Utf8Reading := ⟨0, 0, 0, 0, 0, 0⟩

/-- Begins a character; the second byte excludes long forms, surrogates and what is too large. -/
def begin? (place : Nat) (b : UInt8) : Option Utf8Reading :=
  let n := b.toNat
  if n < 0x80 then some ⟨place, b, 1, 0, 0x80, 0xbf⟩
  else if n < 0xc2 then none
  else if n < 0xe0 then some ⟨place, b, 1, 1, 0x80, 0xbf⟩
  else if n < 0xf0 then
    some ⟨place, b, 1, 2, if n = 0xe0 then 0xa0 else 0x80, if n = 0xed then 0x9f else 0xbf⟩
  else if n < 0xf5 then
    some ⟨place, b, 1, 3, if n = 0xf0 then 0x90 else 0x80, if n = 0xf4 then 0x8f else 0xbf⟩
  else none

def error (r : Utf8Reading) (flaw : Utf8Flaw) : Utf8Error := ⟨r.place, r.count, r.first, flaw⟩

def step (r : Utf8Reading) (b : UInt8) : Except Utf8Error Utf8Reading :=
  if r.needed = 0 then
    match begin? (r.place + r.count) b with
    | some r => .ok r
    | none => .error ⟨r.place + r.count, 1, b, .invalidStart⟩
  else if r.low ≤ b.toNat ∧ b.toNat ≤ r.high then
    .ok ⟨r.place, r.first, r.count + 1, r.needed - 1, 0x80, 0xbf⟩
  else .error (r.error .invalidContinuation)

end Utf8Reading

/-- The first error in some bytes; at their end the last character must be complete. -/
def utf8Check (bytes : List UInt8) : Except Utf8Error Unit := do
  let r ← bytes.foldlM Utf8Reading.step .start
  if r.needed = 0 then return () else throw (r.error .unexpectedEnd)

/-- The error in bytes that are no text. -/
def utf8ErrorOf (content : ByteArray) : Utf8Error :=
  match utf8Check content.toList with
  | .error e => e
  | .ok () => ⟨content.size, 0, 0, .unexpectedEnd⟩

end ImportAtlas.Text
