import Liquid.Calendar.Pattern

/-!
# Writing dates by directives

A format holds directives such as `%Y` or `%-d`: a percent sign, flags, a width, a modifier and a
letter.  The flags `-`, `_` and `0` choose how numbers are filled up, `^` and `#` change the case.
What is no directive is written as it stands.

* `format`: the formatter.
-/
namespace Liquid.DateTime

/-- How a number shorter than its field is filled up. -/
inductive Fill where
  | standard
  | none
  | spaces
  | zeros
  deriving DecidableEq, Repr

/-- The letter case of a directive's text. -/
inductive LetterCase where
  | asIs
  | upper
  | lower
  deriving DecidableEq, Repr

/-- A directive without its letter. -/
structure Directive where
  fill : Fill
  toUpper : Bool
  swapCase : Bool
  width : Nat
  modifier : Option Char
  deriving DecidableEq, Repr

/-- Text in a field: in the given case, filled up on the left to the width. -/
def Directive.place (d : Directive) (width : Nat) (letters : LetterCase) (s : List Char) :
    List Char :=
  let text := match letters with
    | .asIs => s
    | .upper => s.map Char.toUpper
    | .lower => s.map Char.toLower
  List.replicate (width - s.length) (if d.fill = .zeros then '0' else ' ') ++ text

/-- A number in a field of at least `digits` places.  Zeros go between its sign and its digits,
spaces before its sign. -/
def Directive.number (d : Directive) (digits : Nat) (n : Int) : List Char :=
  let size := (toString n.natAbs).toList
  let sign := if n < 0 then ['-'] else []
  let padding := max digits d.width - (sign.length + size.length)
  match d.fill with
  | .none => d.place d.width .asIs (sign ++ size)
  | .spaces => List.replicate padding ' ' ++ sign ++ size
  | _ => sign ++ List.replicate padding '0' ++ size

/-- A number that is filled up with spaces unless a flag says otherwise. -/
def Directive.spacedNumber (d : Directive) (digits : Nat) (n : Int) : List Char :=
  let fill := if d.fill = .zeros ∨ d.fill = .none then d.fill else .spaces
  Directive.number { d with fill } digits n

/-- The names of the days of the week. -/
def dayNames : List String :=
  ["Monday", "Tuesday", "Wednesday", "Thursday", "Friday", "Saturday", "Sunday"]

/-- The hour on a clock of twelve hours. -/
def hour12 (t : DateTime) : Nat := if t.hour % 12 = 0 then 12 else t.hour % 12

/-- The text of a directive with the letter `c`, or nothing if there is no such directive. -/
def directive? (t : DateTime) (d : Directive) (sub : String → List Char) (c : Char) :
    Option (List Char) :=
  let era := d.modifier == some 'E'
  let alternative := d.modifier == some 'O'
  let plain := d.modifier.isNone
  let named := if d.toUpper || d.swapCase then LetterCase.upper else .asIs
  let word (s : String) := d.place d.width named s.toList
  let whole (s : String) :=
    let text := sub s
    d.place d.width (if d.toUpper then .upper else .asIs) text
  let number (refused : Bool) (digits : Nat) (n : Int) :=
    if refused then none else some (d.number digits n)
  let dayName := dayNames[t.date.weekday]?.getD ""
  let monthName := monthNames[t.date.month - 1]?.getD ""
  let sunday : Nat := (t.date.weekday + 1) % 7
  let day : Nat := t.date.dayOfYear - 1
  match c with
  | '%' => some (d.place d.width .asIs ['%'])
  | 'a' => if plain then some (word (shortName dayName)) else none
  | 'A' => if plain then some (word dayName) else none
  | 'b' | 'h' => if era then none else some (word (shortName monthName))
  | 'B' => if era then none else some (word monthName)
  | 'c' => if alternative then none else some (whole "%a %b %e %H:%M:%S %Y")
  | 'C' => some (d.number 1 (t.date.year / 100))
  | 'x' => if alternative then none else some (whole "%m/%d/%y")
  | 'D' => if plain then some (whole "%m/%d/%y") else none
  | 'd' => number era 2 t.date.day
  | 'e' => if era then none else some (d.spacedNumber 2 t.date.day)
  | 'F' => if plain then some (whole "%Y-%m-%d") else none
  | 'H' => number era 2 t.hour
  | 'I' => number era 2 t.hour12
  | 'k' => if era then none else some (d.spacedNumber 2 t.hour)
  | 'l' => if era then none else some (d.spacedNumber 2 t.hour12)
  | 'j' => number era 3 t.date.dayOfYear
  | 'M' => number era 2 t.minute
  | 'm' => number era 2 t.date.month
  | 'n' => some (d.place d.width .asIs ['\n'])
  | 't' => some (d.place d.width .asIs ['\t'])
  | 'P' => some (d.place d.width .lower (if t.hour < 12 then "AM".toList else "PM".toList))
  | 'p' =>
    let letters := if d.swapCase then LetterCase.lower else if d.toUpper then .upper else .asIs
    some (d.place d.width letters (if t.hour < 12 then "AM".toList else "PM".toList))
  | 'R' => some (whole "%H:%M")
  | 'r' => some (whole "%I:%M:%S %p")
  | 'S' => number era 2 t.second
  | 's' =>
    some (d.place d.width .asIs (toString ((t.reading - epoch.reading) / 1000000)).toList)
  | 'X' => if alternative then none else some (whole "%H:%M:%S")
  | 'T' => some (whole "%H:%M:%S")
  | 'u' => some (d.number 1 (t.date.weekday + 1))
  | 'U' => number era 2 ((day + 7 - sunday) / 7 : Nat)
  | 'V' => number era 2 t.date.week.2
  | 'g' => number era 2 (t.date.week.1 % 100 : Nat)
  | 'G' => number era 1 t.date.week.1
  | 'W' => number era 2 ((day + 7 - t.date.weekday) / 7 : Nat)
  | 'w' => number era 1 sunday
  | 'Y' => if alternative then none else some (d.number 1 t.date.year)
  | 'y' => some (d.number 2 (t.date.year % 100 : Nat))
  | 'Z' => some (if d.fill = .none then [] else d.place d.width .asIs [])
  | 'z' => some []
  | _ => none

/-- The letter case of what is no directive; a month is taken for a name. -/
def Directive.refusedCase (d : Directive) (letter : Char) : LetterCase :=
  if d.toUpper || (d.swapCase && (letter == 'b' || letter == 'h')) then .upper else .asIs

/-- The flags of a directive, and the rest. -/
def readFlags (d : Directive) : List Char → Directive × List Char
  | '_' :: rest => readFlags { d with fill := .spaces } rest
  | '-' :: rest => readFlags { d with fill := .none } rest
  | '0' :: rest => readFlags { d with fill := .zeros } rest
  | '^' :: rest => readFlags { d with toUpper := true } rest
  | '#' :: rest => readFlags { d with swapCase := true } rest
  | rest => (d, rest)

/-- A directive up to its letter, and the rest. -/
def readDirective (s : List Char) : Directive × List Char :=
  let (d, rest) := readFlags ⟨.standard, false, false, 0, none⟩ s
  let digits := rest.takeWhile Char.isDigit
  let rest := rest.dropWhile Char.isDigit
  let width := digits.foldl (fun n c => 10 * n + (c.toNat - 48)) 0
  let d := { d with width }
  match rest with
  | 'E' :: rest => ({ d with modifier := some 'E' }, rest)
  | 'O' :: rest => ({ d with modifier := some 'O' }, rest)
  | rest => (d, rest)

theorem readFlags_length_le (d : Directive) (s : List Char) :
    (readFlags d s).2.length ≤ s.length := by
  fun_induction readFlags d s <;> simp_all <;> omega

theorem readDirective_length_le (s : List Char) : (readDirective s).2.length ≤ s.length := by
  have h1 := readFlags_length_le ⟨.standard, false, false, 0, none⟩ s
  have h2 := (List.dropWhile_suffix (l := (readFlags ⟨.standard, false, false, 0, none⟩ s).2)
    Char.isDigit).length_le
  simp only [readDirective]
  split
  · rename_i h; rw [h] at h2; simp at h2 ⊢; omega
  · rename_i h; rw [h] at h2; simp at h2 ⊢; omega
  · simp only; omega

/-- Writes a format whose directives stand for themselves, `depth` levels of directives that stand
for others deep. -/
def formatAux (t : DateTime) : Nat → List Char → List Char
  | _, [] => []
  | depth, c :: rest =>
    if c = '%' then
      match _ : readDirective rest with
      | (d, []) => d.place d.width (if d.toUpper then .upper else .asIs) ('%' :: rest)
      | (d, letter :: after) =>
        let sub (s : String) : List Char :=
          match depth with
          | 0 => []
          | depth + 1 => formatAux t depth s.toList
        (match directive? t d sub letter with
          | some text => text
          | none =>
            d.place d.width (d.refusedCase letter)
              ('%' :: rest.take (rest.length - after.length))) ++
          formatAux t depth after
    else c :: formatAux t depth rest
termination_by depth s => (depth, s.length)
decreasing_by
  · exact Prod.Lex.left _ _ (by omega)
  · have := readDirective_length_le rest
    simp_all
    exact Prod.Lex.right _ (by omega)
  · exact Prod.Lex.right _ (by simp)

/-- Replaces the directives for the offset, its name and the microseconds by their texts. -/
def expandZone (offset name micro : List Char) : List Char → List Char
  | '%' :: 'z' :: rest => offset ++ expandZone offset name micro rest
  | '%' :: 'Z' :: rest => name ++ expandZone offset name micro rest
  | '%' :: 'f' :: rest => micro ++ expandZone offset name micro rest
  | '%' :: c :: rest => '%' :: c :: expandZone offset name micro rest
  | c :: rest => c :: expandZone offset name micro rest
  | [] => []

/-- The longest text that a format of `n` characters may produce: the first power of two from 1024
on that is 256 times as long as the format. -/
def lengthLimit (n : Nat) : Nat :=
  if 256 * n ≤ 1024 then 1024 else Nat.pow 2 (Nat.log2 (256 * n - 1) + 1)

/-- The text of a date and time by a format, which ends at a null character.  A text out of all
proportion to its format is dropped. -/
def format (t : DateTime) (fmt : List Char) : List Char :=
  let fmt := expandZone ((t.offset.map (offsetText "")).getD "").toList
    ((t.offset.map zoneName).getD "").toList (Date.padded 6 t.microsecond).toList
    (fmt.takeWhile (· != '\x00'))
  let text := formatAux t 1 fmt
  if text.length < lengthLimit fmt.length then text else []

end Liquid.DateTime
