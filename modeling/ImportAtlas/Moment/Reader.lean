import ImportAtlas.Moment.Basic
import ImportAtlas.Text.Blank
import ImportAtlas.Text.Search

/-!
# Reading a moment

A timestamp is a date, then optionally any one character and a time of day, then optionally an
offset. Dates are `YYYY-MM-DD`, `YYYYMMDD` or a week date with or without its dashes; times have two
digits a unit with or without colons, and a fraction of a second of which six digits count; the
fraction may follow any unit.
Without an offset a timestamp is in UTC, as it is with `Z`.
-/

namespace ImportAtlas.Moment

/-- Exactly `n` decimal digits at the front. -/
def digits? (n : Nat) (cs : List Char) : Option (Nat × List Char) :=
  let ds := cs.take n
  if ds.length = n && ds.all Char.isDigit then
    some (ds.foldl (fun v c => 10 * v + (c.toNat - 48)) 0, cs.drop n)
  else none

def digitAt (cs : List Char) (i : Nat) : Bool := (cs[i]?).any Char.isDigit

/-- How many characters at the front are the date. A week date without a day may be followed by
a time whose digits come in pairs, which tells it from one with a day. -/
def dateLength (cs : List Char) : Nat :=
  if cs.length = 7 then 7
  else if cs[4]? = some '-' then
    if cs[5]? = some 'W' then
      if cs[8]? = some '-' then (if digitAt cs 10 then 8 else 10) else 8
    else 10
  else if cs[4]? = some 'W' then
    let stop := 7 + ((cs.drop 7).takeWhile Char.isDigit).length
    if stop < 9 then stop else if stop % 2 = 0 then 7 else 8
  else 8

/-- A dash where the date is written with dashes. -/
def dash? (dashed : Bool) (cs : List Char) : Option (List Char) :=
  if dashed then Text.after? ['-'] cs else some cs

/-- The week and the day of a week date; Monday if the day is missing. -/
def weekDate? (dashed : Bool) (year : Nat) (cs : List Char) : Option Date := do
  let (week, r) ← digits? 2 cs
  if r.isEmpty then Date.ofWeek? year week 1
  else do
    let r ← dash? dashed r
    let (day, _) ← digits? 1 r
    Date.ofWeek? year week day

/-- A date that takes up the whole text. -/
def date? (cs : List Char) : Option Date := do
  let (year, r) ← digits? 4 cs
  let dashed := r.head? == some '-'
  let r := if dashed then r.drop 1 else r
  match r with
  | 'W' :: r => weekDate? dashed year r
  | r => do
    let (month, r) ← digits? 2 r
    let r ← dash? dashed r
    let (day, r) ← digits? 2 r
    if r.isEmpty then some ⟨year, month, day⟩ else none

/-- A time of day or an offset. -/
structure Clock where
  hour : Nat
  minute : Nat
  second : Nat
  micro : Nat
  deriving DecidableEq, Repr

/-- The microseconds that the first six digits of a fraction mean, and what follows the digits. -/
def fraction? (cs : List Char) : Option (Nat × List Char) := do
  let n := min cs.length 6
  if n = 0 then none
  else do
    let (v, r) ← digits? n cs
    return (v * Nat.pow 10 (6 - n), r.dropWhile Char.isDigit)

def isMark (c : Char) : Bool := c == '.' || c == ','

/-- A fraction that ends a clock reading, and whether anything is left. -/
def ending? (cs : List Char) : Option (List Nat × Nat × Bool) :=
  (fraction? cs).map fun (micro, r) => ([], micro, !r.isEmpty)

/-- Up to `n` units of two digits, the microseconds of a fraction, and whether anything is left. A
single ASCII character after a unit is left over. After the last unit only a fraction can follow. -/
def units? (colons : Bool) : Nat → List Char → Option (List Nat × Nat × Bool)
  | 0, cs => ending? cs
  | n + 1, cs =>
    match digits? 2 cs with
    | none => none
    | some (v, []) => some ([v], 0, false)
    | some (v, [c]) => if c.toNat < 128 then some ([v], 0, true) else none
    | some (v, c :: rest) =>
      let following :=
        if colons && c == ':' then units? colons n rest
        else if isMark c then ending? rest
        else if colons then none
        else units? colons n (c :: rest)
      following.map fun (vs, micro, more) => (v :: vs, micro, more)

/-- A clock reading and whether anything is left after it. The character after the hour decides
whether units are set apart by colons. -/
def clock? (cs : List Char) : Option (Clock × Bool) := do
  let (us, micro, more) ← units? (cs[2]? == some ':') 3 cs
  return (⟨us[0]?.getD 0, us[1]?.getD 0, us[2]?.getD 0, micro⟩, more)

def Clock.micros (c : Clock) : Int :=
  ((c.hour * 3600 + c.minute * 60 + c.second : Nat) : Int) * Moment.second + c.micro

/-- A time of day exists up to 23:59:59. -/
def Clock.isTime (c : Clock) : Bool := c.hour ≤ 23 && c.minute ≤ 59 && c.second ≤ 59

/-- The offset that a clock reading after a sign means: less than a day. A fraction alone is no
offset. -/
def offset? (negative : Bool) (c : Clock) : Option Int :=
  if c.hour = 0 ∧ c.minute = 0 ∧ c.second = 0 then some 0
  else if c.micros < day then some (if negative then -c.micros else c.micros)
  else none

def isSign (c : Char) : Bool := c == '+' || c == '-'

/-- A time of day and its offset. -/
def time? (cs : List Char) : Option (Clock × Int) :=
  let front := cs.takeWhile (!isSign ·)
  match cs.dropWhile (!isSign ·) with
  | [] => do
    let (c, more) ← clock? front
    if more then none else some (c, 0)
  | sign :: rest => do
    let (c, _) ← clock? front
    let (o, more) ← clock? rest
    if more then none
    else do
      let offset ← offset? (sign == '-') o
      return (c, offset)

/-- A date and, after one character of any kind, a time. -/
def iso? (cs : List Char) : Option Moment := do
  let n := dateLength cs
  if cs.length < 7 then none
  let date ← date? (cs.take n)
  let (clock, offset) ← match cs.drop n with
    | [] => some (⟨0, 0, 0, 0⟩, 0)
    | _ :: rest => time? rest
  if date.exists? && clock.isTime then
    let days : Int := date.dayNumber
    some ⟨(days - epochDays) * day + clock.micros - offset, offset⟩
  else none

/-- Reads a timestamp: blanks around it are dropped and `Z` means no offset. -/
def ofText? (s : String) : Option Moment :=
  iso? (Text.replaceChar 'Z' "+00:00".toList (Text.trim s.toList))

end ImportAtlas.Moment
