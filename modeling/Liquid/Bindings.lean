import Liquid.Value.Basic

/-!
# Bindings

Names with values, in the order in which the names were first bound.

* `get?_set_self`, `get?_set_of_ne`: binding a name changes what that name means, and no other.
-/
namespace Liquid

/-- Names with values. -/
abbrev Bindings := List (String × Value)

namespace Bindings

/-- The value of a name. -/
def get? (name : String) : Bindings → Option Value
  | [] => none
  | (n, v) :: rest => if n = name then some v else get? name rest

/-- Binds a name.  A name that is bound already keeps its place. -/
def set (name : String) (value : Value) : Bindings → Bindings
  | [] => [(name, value)]
  | (n, v) :: rest => if n = name then (n, value) :: rest else (n, v) :: set name value rest

/-- The names that are bound. -/
def names (b : Bindings) : List String := b.map Prod.fst

theorem get?_set_self (name : String) (value : Value) (b : Bindings) :
    get? name (set name value b) = some value := by
  induction b with
  | nil => simp [set, get?]
  | cons entry rest ih =>
    by_cases h : entry.1 = name
    · simp [set, get?, h]
    · simp [set, get?, h, ih]

theorem get?_set_of_ne {name other : String} (h : other ≠ name) (value : Value) (b : Bindings) :
    get? other (set name value b) = get? other b := by
  induction b with
  | nil => simp [set, get?, Ne.symm h]
  | cons entry rest ih =>
    by_cases hn : entry.1 = name
    · simp [set, get?, hn, Ne.symm h]
    · by_cases ho : entry.1 = other <;> simp_all [set, get?]

theorem set_set (name : String) (v w : Value) (b : Bindings) :
    set name w (set name v b) = set name w b := by
  induction b with
  | nil => simp [set]
  | cons entry rest ih =>
    by_cases h : entry.1 = name
    · simp [set, h]
    · simp [set, h, ih]

/-- Binds names one after the other. -/
def setAll (more : List (String × Value)) (b : Bindings) : Bindings :=
  more.foldl (fun b (n, v) => set n v b) b

/-- The bindings as a value. -/
def toValue (b : Bindings) : Value := .mapping (b.map fun (n, v) => (.text n, v))

end Bindings

end Liquid
