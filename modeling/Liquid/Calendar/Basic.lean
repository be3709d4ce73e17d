/-!
# Dates and times

Days of the proleptic Gregorian calendar from year 1 to year 9999, times of day to the microsecond,
and offsets from UTC.

* `DateTime.same_self`: a moment is the same as itself.
-/
namespace Liquid

/-- A day. -/
structure Date where
  year : Nat
  month : Nat
  day : Nat
  deriving DecidableEq, Repr

namespace Date

/-- Leap years. -/
def isLeap (year : Nat) : Bool := year % 4 == 0 && (year % 100 != 0 || year % 400 == 0)

/-- The lengths of the months of a year. -/
def monthLengths (year : Nat) : List Nat :=
  [31, if isLeap year then 29 else 28, 31, 30, 31, 30, 31, 31, 30, 31, 30, 31]

/-- The day, if the calendar has it. -/
def make? (year month day : Nat) : Option Date :=
  if 1 ≤ year ∧ year ≤ 9999 ∧ 1 ≤ month ∧ month ≤ 12 ∧ 1 ≤ day ∧
      day ≤ (monthLengths year)[month - 1]?.getD 0 then
    some ⟨year, month, day⟩
  else none

/-- The number of days before a year. -/
def daysBeforeYear (year : Nat) : Nat :=
  (year - 1) * 365 + (year - 1) / 4 - (year - 1) / 100 + (year - 1) / 400

/-- The day of the year, from 1. -/
def dayOfYear (d : Date) : Nat := ((monthLengths d.year).take (d.month - 1)).foldl (· + ·) d.day

/-- The number of the day, from 1 for the first day of year 1. -/
def ordinal (d : Date) : Nat := daysBeforeYear d.year + d.dayOfYear

/-- The month and day of the `n`-th day (from 0) of a year with these month lengths. -/
def monthAndDay (n month : Nat) : List Nat → Nat × Nat
  | [] => (month, n + 1)
  | length :: rest =>
    if n < length then (month, n + 1) else monthAndDay (n - length) (month + 1) rest

/-- The day with a number from 1 on. -/
def ofOrdinal (n : Nat) : Date :=
  let n := n - 1
  let (n400, n) := (n / 146097, n % 146097)
  let (n100, n) := (n / 36524, n % 36524)
  let (n4, n) := (n / 1461, n % 1461)
  let (n1, n) := (n / 365, n % 365)
  let year := 400 * n400 + 100 * n100 + 4 * n4 + n1 + 1
  if n1 = 4 ∨ n100 = 4 then ⟨year - 1, 12, 31⟩
  else
    let (month, day) := monthAndDay n 1 (monthLengths year)
    ⟨year, month, day⟩

/-- The day of the week, from 0 for Monday. -/
def weekday (d : Date) : Nat := (d.ordinal + 6) % 7

/-- The number of the Monday that begins the first week of a year: the week with its first
Thursday. -/
def firstMonday (year : Nat) : Int :=
  let first : Int := daysBeforeYear year + 1
  let weekday := (first + 6) % 7
  if weekday > 3 then first - weekday + 7 else first - weekday

/-- The year and number of the week that holds the day. -/
def week (d : Date) : Nat × Nat :=
  let n : Int := d.ordinal
  if n < firstMonday d.year then
    (d.year - 1, ((n - firstMonday (d.year - 1)) / 7 + 1).toNat)
  else if firstMonday (d.year + 1) ≤ n then (d.year + 1, 1)
  else (d.year, ((n - firstMonday d.year) / 7 + 1).toNat)

/-- The number of weeks of a year: 53 if it begins on a Thursday, or on a Wednesday and is a leap
year. -/
def weeksIn (year : Nat) : Nat :=
  let first := (daysBeforeYear year + 7) % 7
  if first = 3 ∨ (first = 2 ∧ isLeap year) then 53 else 52

/-- The day given by week and day of the week, from 1 for Monday. -/
def ofWeek? (year week day : Nat) : Option Date :=
  if 1 ≤ year ∧ year ≤ 9999 ∧ 1 ≤ week ∧ week ≤ weeksIn year ∧ 1 ≤ day ∧ day ≤ 7 then
    let d := ofOrdinal (firstMonday year + (week - 1) * 7 + day - 1).toNat
    make? d.year d.month d.day
  else none

/-- The digits of `n`, at least `width` of them. -/
def padded (width n : Nat) : String :=
  let s := toString n
  String.ofList (List.replicate (width - s.length) '0') ++ s

/-- The date in ISO form. -/
def iso (d : Date) : String := padded 4 d.year ++ "-" ++ padded 2 d.month ++ "-" ++ padded 2 d.day

/-- The first day of the calendar. -/
def first : Date := ⟨1, 1, 1⟩

/-- The last day of the calendar. -/
def last : Date := ⟨9999, 12, 31⟩

end Date

/-- A day and a time of day.  The offset, in microseconds east of UTC, tells which moment it is;
without one it is a reading of some clock. -/
structure DateTime where
  date : Date
  hour : Nat
  minute : Nat
  second : Nat
  microsecond : Nat
  offset : Option Int
  deriving DecidableEq, Repr

namespace DateTime

/-- The date and time, if the calendar and the clock have them and the offset is less than a
day. -/
def make? (date : Option Date) (hour minute second microsecond : Nat) (offset : Option Int) :
    Option DateTime :=
  match date with
  | none => none
  | some d =>
    if hour < 24 ∧ minute < 60 ∧ second < 60 ∧ microsecond < 1000000 ∧
        (offset.all fun o => -86400000000 < o ∧ o < 86400000000) then
      some ⟨d, hour, minute, second, microsecond, offset⟩
    else none

/-- The microseconds from the beginning of the calendar to this reading of the clock. -/
def reading (t : DateTime) : Int :=
  (((t.date.ordinal * 24 + t.hour) * 60 + t.minute) * 60 + t.second) * 1000000 + t.microsecond

/-- Whether two times are the same moment, or the same reading if neither has an offset. -/
def same (t u : DateTime) : Bool :=
  match t.offset, u.offset with
  | none, none => t.reading == u.reading
  | some o, some p => t.reading - o == u.reading - p
  | _, _ => false

theorem same_self (t : DateTime) : t.same t = true := by
  unfold same; cases t.offset <;> simp

/-- The time so many seconds and microseconds after the start of 1970, in UTC. -/
def ofTimestamp? (seconds : Int) (microsecond : Nat) : Option DateTime :=
  if -62135596800 ≤ seconds ∧ seconds ≤ 253402300799 then
    let day := seconds.fdiv 86400
    let rest := (seconds.fmod 86400).toNat
    some ⟨Date.ofOrdinal (719163 + day).toNat, rest / 3600, rest / 60 % 60, rest % 60, microsecond,
      some 0⟩
  else none

/-- The beginning of 1970, UTC. -/
def epoch : DateTime := ⟨⟨1970, 1, 1⟩, 0, 0, 0, 0, some 0⟩

/-- An offset: sign, hours and minutes, and seconds and microseconds where they are not zero. -/
def offsetText (separator : String) (offset : Int) : String :=
  let size := offset.natAbs
  let seconds := size / 1000000
  (if offset < 0 then "-" else "+") ++ Date.padded 2 (seconds / 3600) ++ separator ++
    Date.padded 2 (seconds / 60 % 60) ++
    (if seconds % 60 = 0 ∧ size % 1000000 = 0 then ""
      else separator ++ Date.padded 2 (seconds % 60)) ++
    (if size % 1000000 = 0 then "" else "." ++ Date.padded 6 (size % 1000000))

/-- The date and time in ISO form, with a separator between them. -/
def iso (t : DateTime) (separator : String) : String :=
  t.date.iso ++ separator ++ Date.padded 2 t.hour ++ ":" ++ Date.padded 2 t.minute ++ ":" ++
    Date.padded 2 t.second ++
    (if t.microsecond = 0 then "" else "." ++ Date.padded 6 t.microsecond) ++
    (t.offset.map (offsetText ":")).getD ""

/-- The name of an offset. -/
def zoneName (offset : Int) : String := if offset = 0 then "UTC" else "UTC" ++ offsetText ":" offset

end DateTime

end Liquid
