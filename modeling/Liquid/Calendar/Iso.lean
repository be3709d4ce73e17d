import Liquid.Calendar.Basic

/-!
# Reading ISO 8601 dates and times

A date (`2024-03-05`, `20240305`, or by week `2024-W10-2`, `2024W10`), any separator, and a time
(`10`, `10:20`, `102030.5`) with an offset (`Z`, `+02:00`, `-0030`).

* `readIso?`: the reader.
-/
namespace Liquid.DateTime

/-- Reads exactly `n` ASCII digits. -/
def takeDigits : Nat → List Char → Option (Nat × List Char)
  | 0, s => some (0, s)
  | _ + 1, [] => none
  | n + 1, c :: s =>
    if c.isDigit then
      (takeDigits n s).map fun (v, rest) => ((c.toNat - 48) * Nat.pow 10 n + v, rest)
    else none

/-- Where the date ends.  A date by week may or may not name the day: after `YYYY-Www` a dash
belongs to the date unless two more characters make it a time, and after `YYYYWww` the number of
digits decides. -/
def dateLength? (s : List Char) : Option Nat :=
  let at' (i : Nat) : Char := s[i]?.getD '\x00'
  let n := s.length
  if n < 7 then none
  else if n = 7 then some 7
  else if at' 4 = '-' then
    if at' 5 = 'W' then
      if 8 < n ∧ at' 8 = '-' then
        if n = 9 then none else some (if 10 < n ∧ (at' 10).isDigit then 8 else 10)
      else some 8
    else some 10
  else if at' 4 = 'W' then
    let stop := 7 + ((s.drop 7).takeWhile Char.isDigit).length
    some (if stop < 9 then stop else if stop % 2 = 0 then 7 else 8)
  else some 8

/-- Skips a dash where dashes are used. -/
def skipDash? (dashes : Bool) (s : List Char) : Option (List Char) :=
  if dashes then match s with
    | '-' :: rest => some rest
    | _ => none
  else some s

/-- Reads a date of the given length. -/
def readDate? (length : Nat) (s : List Char) : Option Date := do
  let (year, rest) ← takeDigits 4 s
  let dashes := rest.head? == some '-'
  let rest := if dashes then rest.tail else rest
  match rest with
  | 'W' :: rest =>
    let (week, rest) ← takeDigits 2 rest
    if s.length - rest.length < length then
      let rest ← skipDash? dashes rest
      let (day, _) ← takeDigits 1 rest
      Date.ofWeek? year week day
    else Date.ofWeek? year week 1
  | rest =>
    let (month, rest) ← takeDigits 2 rest
    let rest ← skipDash? dashes rest
    let (day, _) ← takeDigits 2 rest
    Date.make? year month day

/-- A time of day as far as it is written. -/
structure Clock where
  hour : Nat
  minute : Nat
  second : Nat
  microsecond : Nat

/-- Reads the fraction of a second: up to six digits count, more are skipped.  The flag tells
whether the whole text has been read. -/
def readFraction? (stop : Nat) (s : List Char) : Option (Nat × Bool) := do
  let size := min 6 (s.length - stop)
  let (v, rest) ← takeDigits size s
  let rest := rest.dropWhile Char.isDigit
  return (v * Nat.pow 10 (6 - size), rest.isEmpty)

/-- Reads hours, minutes and seconds, as many as there are before the last `stop` characters of the
text, and then a fraction.  Colons stand between all of them or between none.  An ASCII character
before the last ones is passed over.  The flag tells whether the whole text has been read. -/
def readParts? (stop : Nat) (colons : Option Bool) (fields : Nat) (done : List Nat)
    (s : List Char) : Option (List Nat × Nat × Bool) :=
  match fields with
  | 0 => do
    let (micro, whole) ← readFraction? stop s
    return (done, micro, whole)
  | fields + 1 => do
    let (v, rest) ← takeDigits 2 s
    let done := done ++ [v]
    let c := rest.headD '\x00'
    let colons := colons.getD (c == ':')
    if rest.length ≤ stop ∨ (rest.length = stop + 1 ∧ c.toNat < 128) then
      return (done, 0, rest.isEmpty)
    else if colons && c == ':' then readParts? stop (some colons) fields done rest.tail
    else if c = '.' ∨ c = ',' then
      let (micro, whole) ← readFraction? stop rest.tail
      return (done, micro, whole)
    else if !colons then readParts? stop (some colons) fields done rest
    else none

/-- Reads a clock time that ends `stop` characters before the end of the text. -/
def readClock? (stop : Nat) (s : List Char) : Option (Clock × Bool) :=
  (readParts? stop none 3 [] s).map fun (parts, micro, whole) =>
    (⟨parts[0]?.getD 0, parts[1]?.getD 0, parts[2]?.getD 0, micro⟩, whole)

/-- Reads a time of day and the offset after it. -/
def readTime? (s : List Char) : Option (Clock × Option Int) := do
  let zone := s.dropWhile fun c => c != '+' && c != '-' && c != 'Z'
  let (clock, whole) ← readClock? zone.length s
  match zone with
  | [] => if whole then return (clock, none) else none
  | 'Z' :: rest => if rest.isEmpty then return (clock, some 0) else none
  | sign :: rest =>
    let (o, whole) ← readClock? 0 rest
    if whole then
      let size : Int := ((o.hour * 60 + o.minute) * 60 + o.second) * 1000000 + o.microsecond
      return (clock, some (if sign = '-' then -size else size))
    else none

/-- Reads a date and time, with any character between them. -/
def readIso? (s : List Char) : Option DateTime := do
  let length ← dateLength? s
  let date ← readDate? length s
  match s.drop length with
  | [] => make? (some date) 0 0 0 0 none
  | _ :: rest =>
    let (clock, offset) ← readTime? rest
    make? (some date) clock.hour clock.minute clock.second clock.microsecond offset

end Liquid.DateTime
