import ImportAtlas.Json.Reader
import ImportAtlas.Moment.Calendar
import ImportAtlas.Settings.Toml.Basic
import ImportAtlas.Text.Search

/-!
# Numbers, dates and times

A value without quotes and brackets is a truth value, a time, a date or a number, tried in this
order. A number right after a key is held to a stricter form than one in an array (`isPlainNumber`).
-/

namespace ImportAtlas.Toml

/-! ## Dates and times -/

/-- Whether the text begins with digits and marks laid out as in `shape`, where `0` is a digit. -/
def hasShape (shape : String) (cs : List Char) : Bool :=
  shape.length ≤ cs.length &&
    (shape.toList.zip cs).all fun (p, c) => if p == '0' then c.isDigit else p == c

def isTimeLike (cs : List Char) : Bool := hasShape "00:00:00" cs

/-- The number in the characters from `first` up to `last`. -/
def part? (first last : Nat) (cs : List Char) : Option Int :=
  Number.ofText? (String.ofList ((cs.take last).drop first))

def isTimeOfDay (hour minute second : Int) : Bool :=
  0 ≤ hour && hour ≤ 23 && 0 ≤ minute && minute ≤ 59 && 0 ≤ second && second ≤ 59

def isTime (cs : List Char) : Bool :=
  match part? 0 2 cs, part? 3 5 cs, part? 6 8 cs with
  | some h, some m, some s => isTimeOfDay h m s
  | _, _, _ => false

/-- The digits of a fraction of a second and the offset behind them: a final `Z`, else what a sign
begins. -/
def cutOffset (cs : List Char) : List Char × List Char :=
  if cs.getLast? == some 'Z' || cs.getLast? == some 'z' then (cs.dropLast, ['Z'])
  else
    let sign := if cs.contains '+' then '+' else '-'
    (cs.takeWhile (· != sign), cs.dropWhile (· != sign))

def isOffset (cs : List Char) : Bool :=
  cs.isEmpty || cs == ['Z'] || ((part? 1 3 cs).isSome && (part? 4 6 cs).isSome)

/-- Whether the fraction of a second is less than a second. One that cannot be read counts for
nothing, and so does one before an offset that cannot be read. -/
def isFraction (cs : List Char) : Bool :=
  let (ds, offset) := cutOffset cs
  match Number.ofText? (String.ofList ds) with
  | none => true
  | some n =>
    !isOffset offset ||
      if ds.length ≤ 6 then decide (0 ≤ n)
      else
        match Binary.ofInt? n with
        | some x =>
          let micros := x * Binary.ofScientific false 1 (6 - (ds.length : Int))
          decide (-1 < micros) && decide (micros < 1000000)
        | none => false

/-- Whether the characters before the tenth make a date. What stands between the numbers does not
matter. -/
def isDay (cs : List Char) : Bool :=
  match part? 0 4 cs, part? 5 7 cs, part? 8 10 cs with
  | some y, some m, some d =>
    0 ≤ y && 0 ≤ m && 0 ≤ d && Date.exists? ⟨y.toNat, m.toNat, d.toNat⟩
  | _, _, _ => false

/-- Whether a text is a date, with a time unless it has ten characters. -/
def isDate (cs : List Char) : Bool :=
  (cs.drop 1).contains '-' && isDay cs &&
    (cs.length == 10 ||
      match part? 11 13 cs, part? 14 16 cs, part? 17 19 cs with
      | some h, some m, some s =>
        isTimeOfDay h m s && (cs[19]? != some '.' || isFraction (cs.drop 20))
      | _, _, _ => false)

/-! ## Numbers -/

/-- The form of a number after a key: low lines only between digits and one at a time, no zeros at
the front, and a base only without a sign. -/
def isPlainNumber (cs : List Char) : Bool :=
  match Text.trim cs with
  | [] => false
  | c :: ds =>
    let n := c :: ds
    let loose := c == '_' || n.getLast? == some '_' || Text.occursIn ['_', '.'] n ||
      Text.occursIn ['.', '_'] n
    let padded := match ds with
      | [] => false
      | d :: es =>
        if c == '0' then d != '.' && d != 'o' && d != 'b' && d != 'x'
        else (c == '+' || c == '-') && d == '0' && !es.isEmpty && es.head? != some '.'
    !loose && !padded && !Text.occursIn ['_', '_'] n

def inBase? (base : Nat) (ds : List Char) : Option Nat :=
  if ds.isEmpty then none
  else ds.foldlM (fun n c => do
    let d ← Json.hexValue? c
    if d < base then some (base * n + d) else none) 0

/-- A digit of any script as one of ASCII; other characters stay. -/
def asciiDigit (c : Char) : Char :=
  match Text.digitValue? c with
  | some d => Char.ofNat ('0'.toNat + d)
  | none => c

/-- An unsigned whole number in the base that its first characters give. -/
def unsigned? (cs : List Char) : Option Nat :=
  match cs with
  | '0' :: m :: ds =>
    if m == 'x' || m == 'X' then inBase? 16 ds
    else if m == 'o' || m == 'O' then inBase? 8 ds
    else if m == 'b' || m == 'B' then inBase? 2 ds
    else if (m :: ds).all (· == '0') then some 0
    else none
  | ds => if Number.digitLimit < ds.length then none else inBase? 10 ds

def whole? (cs : List Char) : Option Int :=
  let (negative, body) := Number.cutSign (Number.withoutMargin cs)
  (unsigned? (body.map asciiDigit)).map fun n => if negative then -(n : Int) else n

/-- The negative of a double. Zero has no sign. -/
def negated (x : Float) : Float := if x == 0 then 0 else -x

/-- A number. Low lines do not count. With a point or an exponent it is a double, which begins with
a digit and has something after its point. -/
def number? (cs : List Char) : Option (Json × Kind) :=
  let (negative, body) := Number.cutSign cs
  let ds := body.filter (· != '_')
  let double (x : Float) := (Json.float (if negative then negated x else x), Kind.float)
  let lower := ds.map Char.toLower
  if ds.contains '.' || (!ds.contains 'x' && lower.contains 'e') then
    if ds.getLast? == some '.' && ds.count '.' == 1 || !(ds.head?.any Char.isDigit) then none
    else (Number.doubleOfText? (String.ofList ds)).map double
  else if lower == "inf".toList || lower == "nan".toList then
    (Number.doubleOfText? (String.ofList ds)).map double
  else (whole? ds).map fun i => (.int (if negative then -i else i), .int)

def isScalarLike (cs : List Char) : Bool :=
  (Number.doubleOfText? (String.ofList cs)).isSome || isDate cs || isTimeLike cs

/-- A value without quotes and brackets. -/
def scalar (plain : Bool) (cs : List Char) : Reading (Json × Kind) :=
  if cs == "true".toList then .ok (.bool true, .bool)
  else if cs == "false".toList then .ok (.bool false, .bool)
  else if isTimeLike cs then if isTime cs then .ok (.null, .time) else malformed
  else if isDate cs then .ok (.null, .date)
  else if !plain then malformed
  else
    match number? cs with
    | some v => .ok v
    | none => malformed

end ImportAtlas.Toml
