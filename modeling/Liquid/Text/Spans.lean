/-!
# Sets of code points as spans

A set of code points is written as a flat, increasing list `a₀, b₀, a₁, b₁, …` that stands for
the half-open spans `[a₀, b₀)`, `[a₁, b₁)`, ….  The tables of this folder have that form.

* `mem_cons_cons`: membership, one span at a time.
-/
namespace Liquid.Text

/-- A set of numbers, as the flat list of its half-open spans. -/
abbrev Spans := List Nat

namespace Spans

/-- Whether `n` lies in one of the spans. -/
def mem (n : Nat) : Spans → Bool
  | a :: b :: rest => (decide (a ≤ n) && decide (n < b)) || (decide (b ≤ n) && mem n rest)
  | _ => false

theorem mem_cons_cons (n a b : Nat) (rest : Spans) :
    mem n (a :: b :: rest) =
      ((decide (a ≤ n) && decide (n < b)) || (decide (b ≤ n) && mem n rest)) :=
  rfl

/-- The first number of the span that holds `n`. -/
def start? (n : Nat) : Spans → Option Nat
  | a :: b :: rest => if a ≤ n ∧ n < b then some a else if b ≤ n then start? n rest else none
  | _ => none

end Spans

end Liquid.Text
