import TanLang.Integer
import TanLang.Text
/-!
# Natives — the time

A moment is counted in seconds and nanoseconds since the start of 1970. A
clock shows a moment each time it is read, and nothing is assumed of the
moments it shows: it may stand still or go back.
-/

namespace TanLang

/-- A moment, in seconds and nanoseconds since the start of 1970. -/
structure Instant where
  /-- Whole seconds. -/
  seconds : Int
  /-- Nanoseconds in the second. -/
  nanoseconds : Nat
  deriving DecidableEq, Inhabited

/-- A day of the calendar. -/
structure Date where
  /-- The year. -/
  year : Int
  /-- The month, from one on. -/
  month : Nat
  /-- The day of the month, from one on. -/
  day : Nat
  deriving DecidableEq, Inhabited

/-- **The day so many days after the first of 1970.** The days are counted from
the first of March in the year 0 on, in spans of 400 years, so that a leap day
is the last day of a year. -/
def Date.ofDays (days : Int) : Date :=
  let days := days + 719468
  let spans := days.fdiv 146097
  let inSpan := (days.fmod 146097).toNat
  let years := (inSpan - inSpan / 1460 + inSpan / 36524 - inSpan / 146096) / 365
  let inYear := inSpan - (365 * years + years / 4 - years / 100)
  let months := (5 * inYear + 2) / 153
  let day := inYear - (153 * months + 2) / 5 + 1
  let month := if months < 10 then months + 3 else months - 9
  ⟨years + 400 * spans + (if month ≤ 2 then 1 else 0), month, day⟩

namespace Instant

/-- The moment so many seconds and nanoseconds after the start of 1970; the
nanoseconds may be negative or more than a second. Seconds are counted in
64 bits and go on from the last one at the first. -/
def ofUnix (seconds nanoseconds : Int) : Instant :=
  ⟨(seconds + nanoseconds.fdiv 1000000000).bmod Integer.wordCount,
    (nanoseconds.fmod 1000000000).toNat⟩

/-- The seconds as a float. -/
def toFloat (t : Instant) : Float := Float.ofInt t.seconds + Float.ofNat t.nanoseconds / 1e9

/-- A number with zeros in front up to a width. -/
def digits (width n : Nat) : Text :=
  List.replicate (width - (Text.ofNat n).length) 48 ++ Text.ofNat n

/-- How far a place is from universal time: `Z` for no distance, and else the
hours and minutes with their sign. -/
def zoneText (offset : Int) : Text :=
  if offset = 0 then Text.ofString "Z"
  else
    let minutes := offset.tdiv 60
    Text.ofString (if minutes < 0 then "-" else "+") ++ digits 2 (minutes.natAbs / 60)
      ++ Text.ofString ":" ++ digits 2 (minutes.natAbs % 60)

/-- **A moment as it is written at a place** so many seconds ahead of
universal time: the date, the time of day without parts of a second, and the
distance. -/
def text (t : Instant) (offset : Int) : Text :=
  let seconds := t.seconds + offset
  let date := Date.ofDays (seconds.fdiv 86400)
  let inDay := (seconds.fmod 86400).toNat
  Text.ofString (if date.year < 0 then "-" else "") ++ digits 4 date.year.natAbs
    ++ Text.ofString "-" ++ digits 2 date.month ++ Text.ofString "-" ++ digits 2 date.day
    ++ Text.ofString "T" ++ digits 2 (inDay / 3600) ++ Text.ofString ":"
    ++ digits 2 (inDay / 60 % 60) ++ Text.ofString ":" ++ digits 2 (inDay % 60)
    ++ zoneText offset

/-- A leap day, half an hour after midnight, an hour west of universal time. -/
example : text ⟨1709173800, 0⟩ (-3600) = Text.ofString "2024-02-29T01:30:00-01:00" := by
  decide +kernel

end Instant

/-- A quantity that is read again and again: what it is at each reading, from
the first on. -/
def Readings (α : Type) : Type := Nat → α

/-- A number stands for the quantity that is always that number. -/
instance {α : Type} {n : Nat} [OfNat α n] : OfNat (Readings α) n := ⟨fun _ => OfNat.ofNat n⟩

instance {α : Type} [Inhabited α] : Inhabited (Readings α) := ⟨fun _ => default⟩

/-- **A clock**: what it shows each time it is read. -/
structure Clock where
  /-- The whole seconds. -/
  seconds : Readings Int
  /-- The nanoseconds in the second. -/
  nanoseconds : Readings Nat
  deriving Inhabited

namespace Clock

/-- What the clock shows at a reading. -/
def read (c : Clock) (reading : Nat) : Instant := ⟨c.seconds reading, c.nanoseconds reading⟩

/-- The clock that stands still at a moment. -/
def still (t : Instant) : Clock := ⟨fun _ => t.seconds, fun _ => t.nanoseconds⟩

/-- A moment stands for the clock that stands still at it. -/
instance : Coe Instant Clock := ⟨still⟩

end Clock

end TanLang
