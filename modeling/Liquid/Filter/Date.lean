import Liquid.Calendar.Format
import Liquid.Calendar.Iso
import Liquid.Calendar.Pattern
import Liquid.Filter.Basic
import Liquid.Text.Case

/-!
# The filter for dates

A date is written by a format.  Dates are read from texts in ISO form or in one of a few usual
patterns, from the seconds since 1970, and from the words `now` and `today`.

* `date_nil`: without a format, a value keeps its text.
-/
namespace Liquid

/-- The whole number nearest to a rational number, of two equally near ones the even one. -/
def nearestEven (q : Rat) : Int :=
  let low := q.floor
  let rest := q - low
  if rest < 1 / 2 ∨ (rest = 1 / 2 ∧ low % 2 = 0) then low else low + 1

/-- The microseconds of a float of less than a second, to the nearest one. -/
def microseconds (fraction : Float) : Int :=
  match Binary.toRat? (fraction * 1000000.0) with
  | some q => nearestEven q
  | none => 0

/-- The time so many seconds after the start of 1970, to the nearest microsecond. -/
def DateTime.ofSeconds? : Number → Option DateTime
  | .int n => ofTimestamp? n 0
  | .float x =>
    match Binary.parts? x with
    | none => none
    | some p =>
      let micro := microseconds (x - Float.ofInt p.truncate)
      if (1000000 : Int) ≤ micro then ofTimestamp? (p.truncate + 1) (micro - 1000000).toNat
      else if micro < (0 : Int) then ofTimestamp? (p.truncate - 1) (micro + 1000000).toNat
      else ofTimestamp? p.truncate micro.toNat

namespace Filter

/-- The beginning of a day. -/
def midnight (d : Date) : DateTime := ⟨d, 0, 0, 0, 0, none⟩

/-- The date and time that a text stands for. -/
def readDate? (now : DateTime) (text : List Char) : Option DateTime :=
  let s := Text.trim text
  let word := Text.lower s
  if word = "now".toList ∨ word = "today".toList then some now
  else
    match Number.read? s with
    | some n => DateTime.ofSeconds? n
    | none => (DateTime.readIso? s).or (DateTime.readPatterns? s)

/-- The date and time that a value stands for. -/
def dateOf? (now : DateTime) : Value → Option DateTime
  | .date d => some (midnight d)
  | .datetime t => some t
  | .bool _ | .nil | .undefined => none
  | .number n => DateTime.ofSeconds? n
  | v => readDate? now v.chars

/-- A date written by a format.  What is no date leaves nothing. -/
def date (now : DateTime) (v fmt : Value) : FilterResult :=
  let noFormat := match fmt with
    | .nil | .undefined => true
    | .text s => s == ""
    | _ => false
  if noFormat then pure (.text v.toText)
  else
    match dateOf? now v with
    | some t => pure (.ofChars (t.format fmt.chars))
    | none => pure (.text "")

theorem date_nil (now : DateTime) (v : Value) : date now v .nil = .ok (.text v.toText) := rfl

end Filter

end Liquid
