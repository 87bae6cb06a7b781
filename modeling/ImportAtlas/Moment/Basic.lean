import ImportAtlas.Moment.Calendar
import ImportAtlas.Decimal.Binary

/-!
# Moments

A moment is an instant in microseconds since the start of 1970 in UTC, with the offset of the clock
that showed it. Its written form is that of UTC, cut to milliseconds.
-/

namespace ImportAtlas

/-- An instant and the offset of its clock, both in microseconds. -/
structure Moment where
  instant : Int
  offset : Int
  deriving DecidableEq, Repr

namespace Moment

def second : Int := 1000000

def day : Int := 86400 * second

/-- Days from year 1 to 1970. -/
def epochDays : Int := 719162

/-- Microseconds from year 1 to the instant. -/
def sinceYearOne (m : Moment) : Int := m.instant + epochDays * day

/-- Whether the instant lies in the years 1 to 9999 of UTC. -/
def isWritable (m : Moment) : Bool :=
  0 ≤ m.sinceYearOne && m.sinceYearOne < 3652059 * day

def padded (width n : Nat) : String :=
  let ds := toString n
  String.ofList (List.replicate (width - ds.length) '0') ++ ds

/-- The written form of a moment that `isWritable`: UTC to the millisecond. -/
def utcText (m : Moment) : String :=
  let t := m.sinceYearOne.toNat
  let d := Date.ofDayNumber (t / 86400000000)
  let ms := t % 86400000000 / 1000
  padded 4 d.year ++ "-" ++ padded 2 d.month ++ "-" ++ padded 2 d.day ++ "T" ++
    padded 2 (ms / 3600000) ++ ":" ++ padded 2 (ms / 60000 % 60) ++ ":" ++
    padded 2 (ms / 1000 % 60) ++ "." ++ padded 3 (ms % 1000) ++ "Z"

/-- The written form; none outside the years 1 to 9999. -/
def toUtc? (m : Moment) : Option String := if m.isWritable then some m.utcText else none

/-- The seconds between two moments, as the nearest double. -/
def secondsSince (now earlier : Moment) : Float :=
  let d := now.instant - earlier.instant
  Binary.nearest (d < 0) d.natAbs 1000000

def hoursSince (now earlier : Moment) : Float := now.secondsSince earlier / 3600

end Moment

end ImportAtlas
