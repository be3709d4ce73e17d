import Liquid.Filter.Basic

/-!
# Filters for numbers

What stands for no number counts as zero.  Whole numbers stay whole, and a float that is too large
is refused.

* `round_places`: beyond a bound on either side, more places change nothing, so the places are cut
  to that bound.
-/
namespace Liquid.Filter

/-- The number that a value stands for. -/
def numberOf (v : Value) : Number := v.number?.getD (.int 0)

/-- A result that must exist and be finite. -/
def finite (name : String) : Option Number → FilterResult
  | none => throw (.ofFault .overflow)
  | some n =>
    if n.isFinite then pure (.number n)
    else throw (filterError name "Result is too large to represent")

/-- The sum. -/
def plus (v operand : Value) : FilterResult :=
  finite "plus" ((numberOf v).add? (numberOf operand))

/-- The difference. -/
def minus (v operand : Value) : FilterResult :=
  finite "minus" ((numberOf v).sub? (numberOf operand))

/-- The product. -/
def times (v operand : Value) : FilterResult :=
  finite "times" ((numberOf v).mul? (numberOf operand))

/-- The quotient, of whole numbers rounded down. -/
def dividedBy (v operand : Value) : FilterResult :=
  if (numberOf operand).isZero then throw (filterError "divided_by" "Division by zero")
  else finite "divided_by" ((numberOf v).div? (numberOf operand))

/-- The remainder, with the sign of the divisor. -/
def modulo (v operand : Value) : FilterResult :=
  if (numberOf operand).isZero then throw (filterError "modulo" "Modulo by zero")
  else
    match (numberOf v).mod? (numberOf operand) with
    | some n => pure (.number n)
    | none => throw (.ofFault .overflow)

/-- The most places that a rounded number keeps. -/
def mostPlaces : Int := 400

/-- The places that a number of some magnitude is rounded to: at most `mostPlaces`, and at least so
many that the whole number vanishes. -/
def cutPlaces (magnitude places : Int) : Int := max (min places mostPlaces) (-(magnitude + 2))

theorem round_places {magnitude places : Int} (h₁ : places ≤ mostPlaces)
    (h₂ : -(magnitude + 2) ≤ places) : cutPlaces magnitude places = places := by
  unfold cutPlaces; omega

/-- The number of digits that decimals have to work with if nothing else is said. -/
def usualDigits : Int := 28

/-- The number of digits to work with when a number of some magnitude is rounded to some places: one
for each place on either side of the point, and one more if the first digits are nines. -/
def workingDigits (usual magnitude places : Int) : Int := max usual (magnitude + max places 0 + 2)

/-- The number rounded to some places, halves away from zero; a whole number unless places behind
the point are asked for. -/
def round (v precision : Value) : FilterResult :=
  let d := (numberOf v).toDecimal
  let magnitude := max d.adjusted 0
  let places := precision.toInt 0
  let cut := cutPlaces magnitude places
  match d.quantize? (-cut) (workingDigits usualDigits magnitude cut) with
  | none => throw (.ofFault .tooManyDigits)
  | some rounded =>
    if places ≤ 0 then pure (.int rounded.toInt) else finite "round" (some (.float rounded.toFloat))

/-- The greater of two numbers. -/
def atLeast (v minimum : Value) : FilterResult :=
  pure (.number ((numberOf v).max (numberOf minimum)))

/-- The lesser of two numbers. -/
def atMost (v maximum : Value) : FilterResult :=
  pure (.number ((numberOf v).min (numberOf maximum)))

/-- The filters for numbers. -/
def numbers : List (String × Builtin) :=
  [ ("plus", .unary (.or "operand" (.int 0)) plus),
    ("minus", .unary (.or "operand" (.int 0)) minus),
    ("times", .unary (.or "operand" (.int 1)) times),
    ("divided_by", .unary (.or "operand" .nil) dividedBy),
    ("modulo", .unary (.or "operand" .nil) modulo),
    ("round", .unary (.or "precision" (.int 0)) round),
    ("ceil", .plain fun v => pure (.int (numberOf v).ceil)),
    ("floor", .plain fun v => pure (.int (numberOf v).floor)),
    ("abs", .plain fun v => pure (.number (numberOf v).abs)),
    ("at_least", .unary (.or "minimum" (.int 0)) atLeast),
    ("at_most", .unary (.or "maximum" (.int 0)) atMost) ]

end Liquid.Filter
