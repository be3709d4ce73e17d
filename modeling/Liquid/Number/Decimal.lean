import Liquid.Number.Binary

/-!
# Decimal numbers

`± coefficient · 10^exponent`: the form in which floats are written and numbers are rounded.

* `ofFloat`: the shortest decimal that reads back as the float, and of these the nearest to it.
* `roundTo`: rounding to a multiple of a power of ten, halves away from zero.
* `roundTo_of_le`: a finer grid changes nothing.
* `quantize?`: the same with a bound on the digits of the result.
-/
namespace Liquid

/-- The number `± coefficient · 10^exponent`. -/
structure Decimal where
  negative : Bool
  coefficient : Nat
  exponent : Int
  deriving DecidableEq, Repr

namespace Decimal

/-- The decimal digits of a number. -/
def digits (n : Nat) : List Char := Nat.toDigits 10 n

/-- The position of the first digit: `d.adjusted = 2` for numbers in the hundreds. -/
def adjusted (d : Decimal) : Int := d.exponent + (digits d.coefficient).length - 1

/-- A whole number. -/
def ofInt (n : Int) : Decimal := ⟨decide (n < 0), n.natAbs, 0⟩

/-- Drops trailing zeros of the coefficient, at most `fuel` of them. -/
def dropZeros : Nat → Nat → Int → Nat × Int
  | 0, c, e => (c, e)
  | fuel + 1, c, e => if c % 10 = 0 then dropZeros fuel (c / 10) (e + 1) else (c, e)

/-- The multiples of `10^g` that round to the float `m · 2^e`: of the two neighbours of the float
on that grid the nearer one, or the even one if they are equally near, if it lies in the interval of
numbers that round to the float.  The interval reaches half way to the next floats, ends included
when `m` is even. -/
def onGrid? (m : Nat) (e g : Int) : Option Nat :=
  let up := Nat.pow 2 (e - 2).toNat * Nat.pow 10 (-g).toNat
  let den := Nat.pow 2 (2 - e).toNat * Nat.pow 10 g.toNat
  let low := (if m = Nat.pow 2 52 ∧ e ≠ -1074 then 4 * m - 1 else 4 * m - 2) * up
  let mid := 4 * m * up
  let high := (4 * m + 2) * up
  let inside (n : Nat) : Bool := if m % 2 = 0 then low ≤ n && n ≤ high else low < n && n < high
  let c := mid / den
  let below := inside (c * den)
  let above := inside ((c + 1) * den)
  if below && above then
    let twice := 2 * (mid - c * den)
    some (if twice < den || (twice == den && c % 2 == 0) then c else c + 1)
  else if below then some c
  else if above then some (c + 1)
  else none

/-- The number of digits before the decimal point of `m · 2^e`, negative for leading zeros behind
it. -/
def pointOf (m : Nat) (e : Int) : Int :=
  (digits (m * Nat.pow 10 350 * Nat.pow 2 e.toNat / Nat.pow 2 (-e).toNat)).length - 350

/-- The shortest decimal that reads back as `m · 2^e`, trying `n` more lengths. -/
def shortestAux (m : Nat) (e point : Int) : Nat → Nat → Nat × Int
  | 0, _ => (m, e)
  | n + 1, size =>
    match onGrid? m e (point - size) with
    | some c => dropZeros 20 c (point - size)
    | none => shortestAux m e point n (size + 1)

/-- The shortest decimal that reads back as the float. -/
def ofFloat (p : Binary.Parts) : Decimal :=
  if p.mantissa = 0 then ⟨p.negative, 0, 0⟩
  else
    let (c, e) := shortestAux p.mantissa p.exponent (pointOf p.mantissa p.exponent) 17 1
    ⟨p.negative, c, e⟩

/-- The multiple of `10^e` nearest to the number, halves away from zero. -/
def roundTo (d : Decimal) (e : Int) : Decimal :=
  if e ≤ d.exponent then
    { d with coefficient := d.coefficient * Nat.pow 10 (d.exponent - e).toNat, exponent := e }
  else
    let unit := Nat.pow 10 (e - d.exponent).toNat
    { d with coefficient := (2 * d.coefficient + unit) / (2 * unit), exponent := e }

/-- The exact value. -/
def toRat (d : Decimal) : Rat :=
  let c : Int := if d.negative then -d.coefficient else d.coefficient
  if 0 ≤ d.exponent then ((c * Nat.pow 10 d.exponent.toNat : Int) : Rat)
  else mkRat c (Nat.pow 10 (-d.exponent).toNat)

theorem roundTo_of_le {d : Decimal} {e : Int} (h : e ≤ d.exponent) :
    d.roundTo e =
      { d with
        coefficient := d.coefficient * Nat.pow 10 (d.exponent - e).toNat, exponent := e } := by
  simp [roundTo, h]

/-- The multiple of `10^e` nearest to the number, unless it takes more digits than there are to work
with.  Zero takes none. -/
def quantize? (d : Decimal) (e precision : Int) : Option Decimal :=
  let rounded := d.roundTo e
  if d.coefficient = 0 then some rounded
  else if precision < d.adjusted - e + 1 then none
  else if precision < (digits rounded.coefficient).length then none
  else some rounded

/-- The whole number, for a decimal without fraction. -/
def toInt (d : Decimal) : Int :=
  let c : Int := d.coefficient * Nat.pow 10 d.exponent.toNat
  if d.negative then -c else c

/-- The nearest float. -/
def toFloat (d : Decimal) : Float :=
  let x := Float.ofScientific d.coefficient (decide (d.exponent < 0)) d.exponent.natAbs
  if d.negative then -x else x

/-- The digits of a float, positional from `0.0001` up to `10^16` and with an exponent of at least
two digits beyond; a whole number keeps one zero behind the point. -/
def floatDigits (d : Decimal) : List Char :=
  let ds := digits d.coefficient
  let point : Int := ds.length + d.exponent
  if d.coefficient = 0 then "0.0".toList
  else if -4 < point ∧ point ≤ 16 then
    if 0 ≤ d.exponent then ds ++ List.replicate d.exponent.toNat '0' ++ ".0".toList
    else if 0 < point then ds.take point.toNat ++ '.' :: ds.drop point.toNat
    else "0.".toList ++ List.replicate (-point).toNat '0' ++ ds
  else
    let exponent := (point - 1).natAbs
    ds.take 1 ++ (if ds.length = 1 then [] else '.' :: ds.drop 1) ++
      ['e', if point - 1 < 0 then '-' else '+'] ++
      (if exponent < 10 then '0' :: digits exponent else digits exponent)

end Decimal

/-- The text of a float: the shortest that reads back. -/
def floatText (x : Float) : String :=
  match Binary.parts? x with
  | some p => String.ofList ((if p.negative then ['-'] else []) ++ (Decimal.ofFloat p).floatDigits)
  | none => if x.isNaN then "nan" else if Binary.isNegative x then "-inf" else "inf"

end Liquid
