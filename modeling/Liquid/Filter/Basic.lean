import Liquid.Bindings
import Liquid.Diagnostic.Error
import Liquid.Value.Order
import Liquid.Value.Segment

/-!
# Filters

A filter takes a value and further arguments, by position or by name, and gives a value or fails.
The filters of the language take at most two arguments, all of which have a default.

* `Arguments.take_named`, `Arguments.take_nothing`: an argument by name is taken under its name, and
  an argument that is not given has its default.
-/
namespace Liquid

/-- What a filter gives. -/
abbrev FilterResult := Except Error Value

/-- The failure of a filter of the language. -/
def filterError (name text : String) : Error := .of (.filter text (some name))

/-- A result that may be a fault. -/
def orFault {α : Type} (r : Except Fault α) : Except Error α := r.mapError Error.ofFault

/-- A parameter of a filter: its name, and the value that it has when it is not given. -/
structure Parameter where
  name : String
  default : Option Value

/-- The arguments of a filter that are not yet taken. -/
structure Arguments where
  byPosition : List Value
  byName : Bindings

namespace Arguments

/-- Takes the argument for a parameter: the next one by position, else the one by name, else the
default. -/
def take (p : Parameter) (a : Arguments) : Except Fault (Value × Arguments) :=
  match a.byPosition with
  | v :: rest => pure (v, { a with byPosition := rest })
  | [] =>
    match a.byName.get? p.name with
    | some v => pure (v, { a with byName := a.byName.filter fun (n, _) => n != p.name })
    | none =>
      match p.default with
      | some v => pure (v, a)
      | none => throw .wrongType

/-- All arguments must have been taken. -/
def done (a : Arguments) : Except Fault Unit :=
  if a.byPosition.isEmpty && a.byName.isEmpty then pure () else throw .wrongType

theorem take_nothing (p : Parameter) {v : Value} (h : p.default = some v) :
    take p ⟨[], []⟩ = .ok (v, ⟨[], []⟩) := by
  simp [take, Bindings.get?, h]
  rfl

theorem take_named (p : Parameter) (v : Value) :
    take p ⟨[], [(p.name, v)]⟩ = .ok (v, ⟨[], []⟩) := by
  simp [take, Bindings.get?]
  rfl

end Arguments

/-- A filter of the language, by the number of its parameters. -/
inductive Builtin where
  | plain (run : Value → FilterResult)
  | unary (p : Parameter) (run : Value → Value → FilterResult)
  | binary (p q : Parameter) (run : Value → Value → Value → FilterResult)

/-- Applies a filter of the language. -/
def Builtin.apply (b : Builtin) (v : Value) (a : Arguments) : FilterResult :=
  match b with
  | .plain run => do
    orFault a.done
    run v
  | .unary p run => do
    let (x, a) ← orFault (a.take p)
    orFault a.done
    run v x
  | .binary p q run => do
    let (x, a) ← orFault (a.take p)
    let (y, a) ← orFault (a.take q)
    orFault a.done
    run v x y

/-- A parameter with a default. -/
def Parameter.or (name : String) (v : Value) : Parameter := ⟨name, some v⟩

/-- A text as a value. -/
def Value.ofChars (s : List Char) : Value := .text (String.ofList s)

end Liquid
