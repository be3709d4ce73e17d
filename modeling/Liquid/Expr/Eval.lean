import Liquid.Expr.Basic
import Liquid.Filter.Basic
import Liquid.Registry
import Liquid.View

/-!
# Evaluation

The value of an expression, and the value that a chain of filters makes of it.

* `eval_const`: a literal means the same everywhere.
* `eval_name_of_ne`: a name that means something has this value, strict or not.
* `applyAll_nil`: no filters change nothing.
-/
namespace Liquid

/-- A number without a fraction is a whole number. -/
def Value.asPosition : Value → Value
  | .number (.float x) => if Binary.isWhole x then .int (Number.truncate (.float x)) else .float x
  | v => v

namespace Expr

/-- The error that a name means nothing. -/
def undefinedName (view : View) (name : String) (line : Nat) : Error :=
  .of (.render (.undefined name (view.place.bind Place.template)
    (some (line : Int)) view.scope.names))

/-- What a name means; if nothing, that is an error where it must mean something. -/
def evalName (view : View) (strict : Bool) (pos : Position) (name : String) :
    Except Error Value :=
  match view.lookup name with
  | .undefined => if strict then throw (undefinedName view name pos.line) else pure .undefined
  | v => pure v

/-- Compares two values. -/
def compareValues (left : Value) (sign : Sign) (right : Value) : Except Fault Bool :=
  match sign with
  | .equal => left.equals right
  | .notEqual => do return !(← left.equals right)
  | .order r => pure (left.compare r right)

/-- The value of an expression.  The right side of a connective counts only if the left side does
not decide. -/
def eval (view : View) (strict : Bool) : Expr → Except Error Value
  | .const _ c => pure c.toValue
  | .name pos n => evalName view strict pos n
  | .property _ e n => do orFault ((← e.eval view strict).segment (.text n))
  | .index _ e k => do
    let v ← e.eval view strict
    orFault (v.segment (← k.eval view strict).asPosition)
  | .range _ a b => do
    let first := (← a.eval view strict).toInt 0
    let last := (← b.eval view strict).toInt 0
    return .range first (last + 1)
  | .compare _ a sign b => do
    let left ← a.eval view strict
    let right ← b.eval view strict
    return .bool (← orFault (compareValues left sign right))
  | .contains _ a b => do
    let left ← a.eval view strict
    let right ← b.eval view strict
    return .bool (← orFault (left.contains right))
  | .connect _ a word b => do
    let left := (← a.eval view strict).isTruthy
    match word, left with
    | .and, false => return .bool false
    | .or, true => return .bool true
    | _, _ => return .bool (← b.eval view strict).isTruthy

theorem eval_const (view : View) (strict : Bool) (pos : Position) (c : Constant) :
    (const pos c).eval view strict = .ok c.toValue := by
  simp [eval, pure, Except.pure]

theorem eval_name_of_ne {view : View} {n : String} (h : view.lookup n ≠ .undefined) (strict : Bool)
    (pos : Position) : (name pos n).eval view strict = .ok (view.lookup n) := by
  simp only [eval, evalName]
  rfl

/-- Where names may mean nothing, every name has a value. -/
theorem eval_lenient_name (view : View) (pos : Position) (n : String) :
    (name pos n).eval view false = .ok (view.lookup n) := by
  rw [eval, evalName]
  cases view.lookup n <;> rfl

/-- The values of some expressions, in order. -/
def evalAll (view : View) (strict : Bool) : List Expr → Except Error (List Value)
  | [] => pure []
  | e :: rest => do
    let v ← e.eval view strict
    return v :: (← evalAll view strict rest)

/-- The values of some expressions under their names; the last of one name counts. -/
def evalNamed (view : View) (strict : Bool) :
    List (String × Expr) → Bindings → Except Error Bindings
  | [], b => pure b
  | (n, e) :: rest, b => do evalNamed view strict rest (b.set n (← e.eval view strict))

end Expr

/-- A filter as it is applied. -/
abbrev FilterFunction := Value → Arguments → FilterResult

namespace FilterCall

/-- The error that a filter is not known. -/
def unknown (view : View) (filters : Registry FilterFunction) (call : FilterCall) : Error :=
  .of (.render (.at view.place call.pos.line ("Unknown filter '" ++ call.name ++ "'")
    .unknownFilter
    (some (match Text.Similar.closest? call.name filters.names with
      | some meant => "Did you mean '" ++ meant ++ "'?"
      | none => "Register it with Environment.add_filter()"))))

/-- Applies a filter to a value. -/
def apply (view : View) (filters : Registry FilterFunction) (strict : Bool) (call : FilterCall)
    (v : Value) : Except Error Value :=
  match filters.get? call.name with
  | none => throw (call.unknown view filters)
  | some filter => do
    let byPosition ← Expr.evalAll view strict call.arguments
    let byName ← Expr.evalNamed view strict call.named []
    (filter v ⟨byPosition, byName⟩).mapError (Error.withinFilter call.name)

/-- Applies filters one after the other. -/
def applyAll (view : View) (filters : Registry FilterFunction) (strict : Bool) :
    List FilterCall → Value → Except Error Value
  | [], v => pure v
  | call :: rest, v => do applyAll view filters strict rest (← call.apply view filters strict v)

theorem applyAll_nil (view : View) (filters : Registry FilterFunction) (strict : Bool) (v : Value) :
    applyAll view filters strict [] v = .ok v := rfl

/-- Whether the first filter is the one that gives a default. -/
def startsWithDefault : List FilterCall → Bool
  | [] => false
  | call :: _ => call.name == "default"

end FilterCall

/-- The value of an expression with filters.  A name may mean nothing where a default is given. -/
def Expr.evalFiltered (view : View) (filters : Registry FilterFunction) (strict : Bool) (e : Expr)
    (calls : List FilterCall) : Except Error Value := do
  let v ← e.eval view (strict && !FilterCall.startsWithDefault calls)
  FilterCall.applyAll view filters strict calls v

end Liquid
