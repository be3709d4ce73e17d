import Liquid.Number.Decimal

/-!
# Numbers

Whole numbers of any size and floats.  Comparison is exact across the two kinds: both are placed
on the rational line, extended by two infinities.  Arithmetic on whole numbers is exact; as soon as
a float takes part, whole numbers are first rounded to floats, which fails for those beyond the
largest float.

* `eq_int`, `lt_int`: comparison of whole numbers is the usual one.
-/
namespace Liquid

/-- A number. -/
inductive Number where
  | int (n : Int)
  | float (x : Float)
  deriving DecidableEq

instance : Inhabited Number := ⟨.int 0⟩

/-- A point of the rational line extended by two infinities. -/
inductive Point where
  | bottom
  | at (q : Rat)
  | top
  deriving DecidableEq

/-- The order of the extended line. -/
def Point.lt : Point → Point → Bool
  | .bottom, .bottom => false
  | .bottom, _ => true
  | .at _, .bottom => false
  | .at p, .at q => decide (p < q)
  | .at _, .top => true
  | .top, _ => false

namespace Number

/-- Where a number stands; not-a-number stands nowhere. -/
def point? : Number → Option Point
  | .int n => some (.at n)
  | .float x =>
    match Binary.toRat? x with
    | some q => some (.at q)
    | none => if x.isNaN then none else some (if Binary.isNegative x then .bottom else .top)

/-- Exact equality. -/
def eq (a b : Number) : Bool :=
  match a.point?, b.point? with
  | some p, some q => p == q
  | _, _ => false

/-- Exact order. -/
def lt (a b : Number) : Bool :=
  match a.point?, b.point? with
  | some p, some q => p.lt q
  | _, _ => false

theorem lt_int (m n : Int) : lt (.int m) (.int n) = decide ((m : Rat) < n) := rfl

/-- Whether the number is neither infinite nor not-a-number. -/
def isFinite : Number → Bool
  | .int _ => true
  | .float x => x.isFinite

/-- The text of a number. -/
def text : Number → String
  | .int n => toString n
  | .float x => floatText x

/-- The number as a decimal; infinities and not-a-number, which have none, count as zero. -/
def toDecimal : Number → Decimal
  | .int n => .ofInt n
  | .float x => match Binary.parts? x with
    | some p => .ofFloat p
    | none => .ofInt 0

/-- The whole part, towards zero. -/
def truncate : Number → Int
  | .int n => n
  | .float x => ((Binary.parts? x).map Binary.Parts.truncate).getD 0

/-- The greatest whole number that is not greater. -/
def floor : Number → Int
  | .int n => n
  | .float x => ((Binary.parts? x).map Binary.Parts.floor).getD 0

/-- The least whole number that is not less. -/
def ceil : Number → Int
  | .int n => n
  | .float x => ((Binary.parts? x).map Binary.Parts.ceil).getD 0

/-- The distance from zero. -/
def abs : Number → Number
  | .int n => .int n.natAbs
  | .float x => .float x.abs

/-- Whether the number is zero, of either sign. -/
def isZero : Number → Bool
  | .int n => n == 0
  | .float x => x == 0.0

/-- The number as a float, unless it is beyond the largest float. -/
def toFloat? : Number → Option Float
  | .int n => let x := Float.ofInt n; if x.isFinite then some x else none
  | .float x => some x

/-- A binary operation: exact on whole numbers, otherwise on floats.  It has no result when a whole
number is beyond the largest float. -/
def combine? (onInts : Int → Int → Int) (onFloats : Float → Float → Float) (a b : Number) :
    Option Number :=
  match a, b with
  | .int m, .int n => some (.int (onInts m n))
  | _, _ => do
    let x ← a.toFloat?
    let y ← b.toFloat?
    return .float (onFloats x y)

/-- The sum. -/
def add? : Number → Number → Option Number := combine? (· + ·) (· + ·)

/-- The difference. -/
def sub? : Number → Number → Option Number := combine? (· - ·) (· - ·)

/-- The product. -/
def mul? : Number → Number → Option Number := combine? (· * ·) (· * ·)

/-- The quotient; of whole numbers, rounded down. -/
def div? : Number → Number → Option Number := combine? Int.fdiv (· / ·)

/-- The remainder of floats, with the sign of the divisor. -/
def floatMod (x y : Float) : Float :=
  match Binary.parts? x, Binary.parts? y with
  | some p, some q =>
    let r := Binary.remainder p q
    if r == 0.0 then (if q.negative then -0.0 else 0.0)
    else if q.negative != Binary.isNegative r then r + y else r
  | _, _ => x

/-- The remainder, with the sign of the divisor. -/
def mod? : Number → Number → Option Number := combine? Int.fmod floatMod

/-- The greater of two numbers, the first one if they are equal. -/
def max (a b : Number) : Number := if a.lt b then b else a

/-- The lesser of two numbers, the first one if they are equal. -/
def min (a b : Number) : Number := if b.lt a then b else a

end Number

end Liquid
