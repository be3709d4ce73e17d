import Liquid.Number.Basic
import Liquid.Text.Word

/-!
# Reading numbers

Whole numbers and floats as people write them: digits of any script, an underscore allowed between
two digits, an optional sign, a fraction and an exponent.

* `digitTail_length_le`, `digitPart_length_le`: reading digits leaves no more than there was.
-/
namespace Liquid.Number

open Liquid.Text

/-- The digits that follow a digit, each perhaps after an underscore, and the rest. -/
def digitTail : List Char → List Nat × List Char
  | [] => ([], [])
  | [c] =>
    match digitValue? c with
    | some d => ([d], [])
    | none => ([], [c])
  | c :: c' :: rest =>
    match digitValue? c with
    | some d => let (ds, r) := digitTail (c' :: rest); (d :: ds, r)
    | none =>
      if c = '_' then
        match digitValue? c' with
        | some d => let (ds, r) := digitTail rest; (d :: ds, r)
        | none => ([], c :: c' :: rest)
      else ([], c :: c' :: rest)

/-- The leading digits of a text, and the rest. -/
def digitPart : List Char → List Nat × List Char
  | [] => ([], [])
  | c :: rest =>
    match digitValue? c with
    | some d => let (ds, r) := digitTail rest; (d :: ds, r)
    | none => ([], c :: rest)

theorem digitTail_length_le (s : List Char) : (digitTail s).2.length ≤ s.length := by
  fun_induction digitTail s <;> simp_all <;> omega

theorem digitPart_length_le (s : List Char) : (digitPart s).2.length ≤ s.length := by
  cases s with
  | nil => simp [digitPart]
  | cons c rest =>
    have := digitTail_length_le rest
    simp only [digitPart]
    split <;> simp_all
    omega

/-- The number that digits write. -/
def ofDigits (ds : List Nat) : Nat := ds.foldl (fun n d => 10 * n + d) 0

/-- A sign, if there is one: whether it is a minus, and the rest. -/
def signPart : List Char → Bool × List Char
  | '-' :: rest => (true, rest)
  | '+' :: rest => (false, rest)
  | rest => (false, rest)

/-- A whole number. -/
def readInt? (s : List Char) : Option Int :=
  let (negative, rest) := signPart s
  match digitPart rest with
  | ([], _) => none
  | (ds, []) => some (if negative then -(ofDigits ds : Int) else ofDigits ds)
  | _ => none

/-- A fraction, if there is one: its digits, and the rest. -/
def fractionPart : List Char → List Nat × List Char
  | '.' :: rest => digitPart rest
  | rest => ([], rest)

/-- An exponent, if there is one.  What does not belong to a number is no exponent either. -/
def exponentPart? : List Char → Option Int
  | [] => some 0
  | c :: rest => if c = 'e' ∨ c = 'E' then readInt? rest else none

/-- A number without its sign, as a float. -/
def readUnsigned? (s : List Char) : Option Float :=
  let word := s.map Char.toLower
  if word = "inf".toList ∨ word = "infinity".toList then some (1.0 / 0.0)
  else if word = "nan".toList then some (0.0 / 0.0)
  else
    let (whole, rest) := digitPart s
    let (fraction, rest) := fractionPart rest
    if whole.isEmpty && fraction.isEmpty then none
    else (exponentPart? rest).map fun (e : Int) =>
      let e : Int := e - fraction.length
      Float.ofScientific (ofDigits (whole ++ fraction)) (decide (e < 0)) e.natAbs

/-- A float. -/
def readFloat? (s : List Char) : Option Float :=
  let (negative, rest) := signPart s
  (readUnsigned? rest).map fun x => if negative then -x else x

/-- A finite number: whole if the text writes a whole number, else a float. -/
def read? (s : List Char) : Option Number :=
  match readInt? s with
  | some n => some (.int n)
  | none => (readFloat? s).bind fun x => if x.isFinite then some (.float x) else none

end Liquid.Number
