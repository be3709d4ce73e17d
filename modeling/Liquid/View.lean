import Liquid.Place
import Liquid.Scope

/-!
# Views

What expressions and tags of the host see of a rendering: the names with their values, and where
they are.  A loop is not a copy of its state: wherever it is kept, it shows where it stands now.

* `now_of_noLoop`: a value in which there is no loop stays as it is.
* `position?_outside`: before the first loop of a rendering, all loops stand still.
-/
namespace Liquid

/-- Where the loops of a rendering stand, by number.  Loops that come from outside have numbers
too, and stand still. -/
abbrev Positions := Array (Option Int)

namespace Positions

/-- Where a loop stands, if it is one of the rendering. -/
def position? (positions : Positions) (id : Nat) : Option Int := (positions[id]?).join

/-- No loop of the rendering yet; so many numbers are those of loops from outside. -/
def outside (taken : Nat) : Positions := Array.replicate taken none

theorem position?_outside (taken id : Nat) : (outside taken).position? id = none := by
  unfold position? outside
  by_cases h : id < taken <;> simp [h]

end Positions

namespace Loop

/-- A loop with the positions that it and the loops around it have now. -/
def now (positions : Positions) : Loop → Loop
  | ⟨id, length, position, none⟩ => ⟨id, length, (positions.position? id).getD position, none⟩
  | ⟨id, length, position, some parent⟩ =>
    ⟨id, length, (positions.position? id).getD position, some (parent.now positions)⟩

/-- A bound for the numbers of a loop and the loops around it. -/
def bound : Loop → Nat
  | ⟨id, _, _, none⟩ => id + 1
  | ⟨id, _, _, some parent⟩ => max (id + 1) parent.bound

end Loop

namespace Value

mutual

/-- A value with the loops in it as they stand now. -/
def now (positions : Positions) : Value → Value
  | .loop l => .loop (l.now positions)
  | .list items => .list (nowItems positions items)
  | .tuple items => .tuple (nowItems positions items)
  | .set items => .set (nowItems positions items)
  | .mapping entries => .mapping (nowEntries positions entries)
  | v => v

/-- Items with the loops in them as they stand now. -/
def nowItems (positions : Positions) : List Value → List Value
  | [] => []
  | v :: rest => v.now positions :: nowItems positions rest

/-- Entries with the loops in them as they stand now. -/
def nowEntries (positions : Positions) : List (Key × Value) → List (Key × Value)
  | [] => []
  | (k, v) :: rest => (k, v.now positions) :: nowEntries positions rest

end

mutual

/-- A bound for the numbers of the loops in a value. -/
def loopBound : Value → Nat
  | .loop l => l.bound
  | .list items | .tuple items | .set items => loopBoundItems items
  | .mapping entries => loopBoundEntries entries
  | .object _ _ attributes => loopBoundNamed attributes
  | _ => 0

/-- A bound for the numbers of the loops in some items. -/
def loopBoundItems : List Value → Nat
  | [] => 0
  | v :: rest => max v.loopBound (loopBoundItems rest)

/-- A bound for the numbers of the loops in some entries. -/
def loopBoundEntries : List (Key × Value) → Nat
  | [] => 0
  | (_, v) :: rest => max v.loopBound (loopBoundEntries rest)

/-- A bound for the numbers of the loops among values with names. -/
def loopBoundNamed : List (String × Value) → Nat
  | [] => 0
  | (_, v) :: rest => max v.loopBound (loopBoundNamed rest)

end

mutual

/-- Whether there is no loop in a value. -/
def noLoop : Value → Bool
  | .loop _ => false
  | .list items | .tuple items | .set items => noLoopItems items
  | .mapping entries => noLoopEntries entries
  | _ => true

/-- Whether there is no loop in any of the items. -/
def noLoopItems : List Value → Bool
  | [] => true
  | v :: rest => v.noLoop && noLoopItems rest

/-- Whether there is no loop in any of the entries. -/
def noLoopEntries : List (Key × Value) → Bool
  | [] => true
  | (_, v) :: rest => v.noLoop && noLoopEntries rest

end

mutual

theorem now_of_noLoop (positions : Positions) {v : Value} (h : v.noLoop = true) :
    v.now positions = v := by
  cases v with
  | list items => simp only [now, nowItems_of_noLoop positions (by simpa [noLoop] using h)]
  | tuple items => simp only [now, nowItems_of_noLoop positions (by simpa [noLoop] using h)]
  | set items => simp only [now, nowItems_of_noLoop positions (by simpa [noLoop] using h)]
  | mapping entries => simp only [now, nowEntries_of_noLoop positions (by simpa [noLoop] using h)]
  | loop l => simp [noLoop] at h
  | _ => simp [now]

theorem nowItems_of_noLoop (positions : Positions) {items : List Value}
    (h : noLoopItems items = true) : nowItems positions items = items := by
  cases items with
  | nil => rfl
  | cons v rest =>
    simp only [noLoopItems, Bool.and_eq_true] at h
    simp only [nowItems, now_of_noLoop positions h.1, nowItems_of_noLoop positions h.2]

theorem nowEntries_of_noLoop (positions : Positions) {entries : List (Key × Value)}
    (h : noLoopEntries entries = true) : nowEntries positions entries = entries := by
  cases entries with
  | nil => rfl
  | cons entry rest =>
    simp only [noLoopEntries, Bool.and_eq_true] at h
    simp only [nowEntries, now_of_noLoop positions h.1, nowEntries_of_noLoop positions h.2]

end

end Value

/-- A bound for the numbers of the loops that are visible at the beginning of a rendering. -/
def Surroundings.loopBound (s : Surroundings) : Nat :=
  max (Value.loopBoundNamed s.globals) (Value.loopBoundNamed s.data)

/-- What is seen of a rendering: the names, where the loops stand, the place if there is one, and
the line. -/
structure View where
  scope : Scope
  positions : Positions
  place : Option Place
  line : Int

namespace View

/-- What a name means now. -/
def lookup (view : View) (name : String) : Value := (view.scope.lookup name).now view.positions

/-- The value at the end of a path. -/
def follow (view : View) (path : Path) : Except Fault Value :=
  Path.follow (view.lookup path.name) path.segments

end View

end Liquid
