/-!
# What a float stands for

A finite float is `± m · 2^e` for whole numbers `m` and `e`.  This module takes floats apart and
gives their exact value as a rational number, its whole part, and the exact remainder of a
division.

* `toRat?_isSome`: exactly the finite floats have a value.
-/
namespace Liquid.Binary

/-- A finite float, taken apart: its sign, and `mantissa · 2^exponent`. -/
structure Parts where
  negative : Bool
  mantissa : Nat
  exponent : Int
  deriving DecidableEq, Repr

/-- The parts of a finite float. -/
def parts? (x : Float) : Option Parts :=
  match x.toModel.unpack with
  | .finite sign m e _ => some ⟨sign == .negative, m, e⟩
  | .zero sign => some ⟨sign == .negative, 0, 0⟩
  | .infinity _ => none
  | .notANumber => none

/-- Whether a float has its sign bit set; also for zeros and infinities. -/
def isNegative (x : Float) : Bool :=
  match x.toModel.unpack with
  | .finite sign _ _ _ => sign == .negative
  | .zero sign => sign == .negative
  | .infinity sign => sign == .negative
  | .notANumber => false

namespace Parts

/-- The mantissa with its sign. -/
def signed (p : Parts) : Int := if p.negative then -p.mantissa else p.mantissa

/-- The exact value. -/
def toRat (p : Parts) : Rat :=
  if 0 ≤ p.exponent then ((p.signed * Nat.pow 2 p.exponent.toNat : Int) : Rat)
  else mkRat p.signed (Nat.pow 2 (-p.exponent).toNat)

/-- The greatest whole number that is not greater. -/
def floor (p : Parts) : Int :=
  if 0 ≤ p.exponent then p.signed * Nat.pow 2 p.exponent.toNat
  else Int.fdiv p.signed (Nat.pow 2 (-p.exponent).toNat)

/-- The least whole number that is not less. -/
def ceil (p : Parts) : Int :=
  if 0 ≤ p.exponent then p.signed * Nat.pow 2 p.exponent.toNat
  else -Int.fdiv (-p.signed) (Nat.pow 2 (-p.exponent).toNat)

/-- The whole part, towards zero. -/
def truncate (p : Parts) : Int :=
  if 0 ≤ p.exponent then p.signed * Nat.pow 2 p.exponent.toNat
  else Int.tdiv p.signed (Nat.pow 2 (-p.exponent).toNat)

end Parts

/-- The exact value of a finite float. -/
def toRat? (x : Float) : Option Rat := (parts? x).map Parts.toRat

theorem toRat?_isSome (x : Float) : (toRat? x).isSome = (parts? x).isSome := by
  simp [toRat?]

/-- The float `± mantissa · 2^exponent`, rounded to nearest. -/
def ofParts (p : Parts) : Float :=
  let size :=
    if 0 ≤ p.exponent then Float.ofScientific (p.mantissa * Nat.pow 2 p.exponent.toNat) false 0
    else Float.ofScientific (p.mantissa * Nat.pow 5 (-p.exponent).toNat) true (-p.exponent).toNat
  if p.negative then -size else size

/-- The remainder of the division of `x` by `y` towards zero, with the sign of `x`.  It is exact. -/
def remainder (x y : Parts) : Float :=
  let e := min x.exponent y.exponent
  let r := x.mantissa * Nat.pow 2 (x.exponent - e).toNat %
    (y.mantissa * Nat.pow 2 (y.exponent - e).toNat)
  ofParts ⟨x.negative, r, e⟩

/-- Whether a float is a whole number. -/
def isWhole (x : Float) : Bool :=
  match parts? x with
  | some p => p.toRat.den == 1
  | none => false

end Liquid.Binary
