import Liquid.Filter.Date
import Liquid.Filter.List
import Liquid.Filter.Number
import Liquid.Filter.Text

/-!
# The table of filters

All filters of the language by name.

* `fallback_nil`: nil is replaced by the fallback.
-/
namespace Liquid.Filter

/-- The value, or a fallback for what is empty and, unless it is allowed, for false. -/
def fallback (v other allowFalse : Value) : FilterResult := do
  if ← orFault v.isEmpty then return other
  else
    match v with
    | .bool false => return if allowFalse.isTruthy then v else other
    | _ => return v

theorem fallback_nil (other allowFalse : Value) : fallback .nil other allowFalse = .ok other := rfl

/-- All filters of the language; `now` is the time that the word `now` stands for. -/
def table (now : DateTime) : List (String × Builtin) :=
  texts ++ lists ++ numbers ++
    [ ("date", .unary (.or "fmt" (.text "%Y-%m-%d")) (date now)),
      ("default", .binary (.or "fallback" (.text "")) (.or "allow_false" (.bool false)) fallback) ]

end Liquid.Filter
