import Liquid.Calendar.Basic
import Liquid.Text.Blank
import Liquid.Text.Word

/-!
# Reading dates by pattern

Dates as people write them: `2024-3-5 10:20`, `March 5, 2024`, `Mar 5, 2024`, `5 March 2024`.  A
pattern is a list of fields; a field may be read in several ways, and the first way that lets the
rest be read counts.

* `patterns`: the patterns that are tried, in order.
-/
namespace Liquid.DateTime

open Liquid.Text

/-- What a pattern consists of. -/
inductive Field where
  | year
  | month
  | monthName
  | monthShort
  | day
  | hour
  | minute
  | second
  | literal (c : Char)
  | blanks
  deriving DecidableEq, Repr

/-- The names of the months. -/
def monthNames : List String :=
  ["January", "February", "March", "April", "May", "June", "July", "August", "September",
    "October", "November", "December"]

/-- The first three letters of a name. -/
def shortName (s : String) : String := String.ofList (s.toList.take 3)

/-- One way to read a number: a first digit within a range, perhaps a second one. -/
def twoDigits (low high : Char) (second : Char → Bool) : List Char → List (Nat × List Char)
  | a :: b :: rest =>
    if low ≤ a ∧ a ≤ high ∧ second b then
      [(10 * (a.toNat - 48) + (digitValue? b).getD 0, rest)] else []
  | _ => []

/-- One digit within a range. -/
def oneDigit (low : Char) (anyScript : Bool) : List Char → List (Nat × List Char)
  | a :: rest =>
    if anyScript then (match digitValue? a with
      | some v => [(v, rest)]
      | none => [])
    else if low ≤ a ∧ a ≤ '9' then [(a.toNat - 48, rest)] else []
  | [] => []

/-- Four digits. -/
def fourDigits : List Char → List (Nat × List Char)
  | a :: b :: c :: d :: rest =>
    match digitValue? a, digitValue? b, digitValue? c, digitValue? d with
    | some a, some b, some c, some d => [(((10 * a + b) * 10 + c) * 10 + d, rest)]
    | _, _, _, _ => []
  | _ => []

/-- A month by name, in any case: its number and the rest. -/
def namedMonth (names : List String) (s : List Char) : List (Nat × List Char) :=
  (names.zipIdx 1).filterMap fun (name, i) =>
    if (s.take name.length).map Char.toLower = name.toList.map Char.toLower then
      some (i, s.drop name.length)
    else none

/-- The ways to skip a run of blanks, the longest first. -/
def skipBlanks : List Char → List (List Char)
  | c :: rest => if isBlank c then skipBlanks rest ++ [rest] else []
  | [] => []

/-- The ways to read a field, in order of preference: its value and the rest. -/
def Field.read (s : List Char) : Field → List (Nat × List Char)
  | .year => fourDigits s
  | .month => twoDigits '1' '1' (fun c => '0' ≤ c && c ≤ '2') s ++
      twoDigits '0' '0' (fun c => '1' ≤ c && c ≤ '9') s ++ oneDigit '1' false s
  | .monthName => namedMonth monthNames s
  | .monthShort => namedMonth (monthNames.map shortName) s
  | .day => twoDigits '3' '3' (fun c => '0' ≤ c && c ≤ '1') s ++ twoDigits '1' '2' isDigit s ++
      twoDigits '0' '0' (fun c => '1' ≤ c && c ≤ '9') s ++ oneDigit '1' false s ++
      (match s with
        | ' ' :: rest => oneDigit '1' false rest
        | _ => [])
  | .hour => twoDigits '2' '2' (fun c => '0' ≤ c && c ≤ '3') s ++ twoDigits '0' '1' isDigit s ++
      oneDigit '0' true s
  | .minute => twoDigits '0' '5' isDigit s ++ oneDigit '0' true s
  | .second => twoDigits '6' '6' (fun c => '0' ≤ c && c ≤ '1') s ++ twoDigits '0' '5' isDigit s ++
      oneDigit '0' true s
  | .literal c => match s with
    | d :: rest => if c = d then [(0, rest)] else []
    | [] => []
  | .blanks => (skipBlanks s).map fun rest => (0, rest)

/-- The first way to read all fields: their values and the rest. -/
def readFields : List Field → List Char → Option (List (Field × Nat) × List Char)
  | [], s => some ([], s)
  | f :: fs, s =>
    (f.read s).findSome? fun (v, rest) =>
      (readFields fs rest).map fun (vs, rest) => ((f, v) :: vs, rest)

/-- The patterns for dates, in the order in which they are tried. -/
def patterns : List (List Field) :=
  let dashed :=
    [.year, .literal '-', .month, .literal '-', .day, .blanks, .hour, .literal ':', .minute]
  [ dashed ++ [.literal ':', .second],
    dashed,
    [.monthName, .blanks, .day, .literal ',', .blanks, .year],
    [.monthShort, .blanks, .day, .literal ',', .blanks, .year],
    [.day, .blanks, .monthName, .blanks, .year] ]

/-- Reads a whole text by one pattern. -/
def readByPattern? (pattern : List Field) (s : List Char) : Option DateTime := do
  let (values, rest) ← readFields pattern s
  let value (f : Field) : Nat := (values.lookup f).getD 0
  if rest.isEmpty then
    make?
      (Date.make? (value .year) (value .month + value .monthName + value .monthShort) (value .day))
      (value .hour) (value .minute) (value .second) 0 none
  else none

/-- Reads a text by the first pattern that fits. -/
def readPatterns? (s : List Char) : Option DateTime :=
  patterns.findSome? fun p => readByPattern? p s

end Liquid.DateTime
