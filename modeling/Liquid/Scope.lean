import Liquid.Bindings
import Liquid.Path

/-!
# Scopes

The names that are visible while a template is rendered.  Names are looked up in the frames of the
open blocks, the innermost first, then among the local names, then in the data of the caller, and
last among the globals.  Assignments bind local names and nothing else.

* `lookup?_assign`: an assignment changes the meaning of its name only, and only where no frame
  binds it.
* `Surroundings.push_frames`: opening a frame leaves everything else as it is.
-/
namespace Liquid

/-- The part of a scope that assignments do not change: globals, data, and the frames of the open
blocks, the innermost first.  In a strict scope, a name that means nothing is an error. -/
structure Surroundings where
  globals : Bindings
  data : Bindings
  frames : List Bindings
  strict : Bool

/-- The names that are visible at a point. -/
structure Scope extends Surroundings where
  locals : Bindings

namespace Surroundings

/-- The surroundings inside a block that binds names of its own. -/
def push (s : Surroundings) (frame : Bindings) : Surroundings :=
  { s with frames := frame :: s.frames }

theorem push_frames (s : Surroundings) (frame : Bindings) :
    (s.push frame).frames = frame :: s.frames ∧ (s.push frame).data = s.data ∧
      (s.push frame).globals = s.globals ∧ (s.push frame).strict = s.strict := ⟨rfl, rfl, rfl, rfl⟩

/-- Surroundings that show the globals and some bindings, and nothing else. -/
def isolated (s : Surroundings) (bindings : Bindings) : Surroundings :=
  { s with data := bindings, frames := [] }

/-- The number of open frames. -/
def depth (s : Surroundings) : Nat := s.frames.length

end Surroundings

namespace Scope

/-- The scope at the beginning of a rendering. -/
def start (globals data : Bindings) (strict : Bool) : Scope :=
  { globals, data, frames := [], strict, locals := [] }

/-- All bindings, the innermost first. -/
def layers (s : Scope) : List Bindings := s.frames ++ [s.locals, s.data, s.globals]

/-- The innermost binding of a name. -/
def lookup? (s : Scope) (name : String) : Option Value := s.layers.findSome? (Bindings.get? name)

/-- What a name means. -/
def lookup (s : Scope) (name : String) : Value := (s.lookup? name).getD .undefined

/-- Whether a name is bound. -/
def contains (s : Scope) (name : String) : Bool := (s.lookup? name).isSome

/-- All names that are bound, in order. -/
def names (s : Scope) : List String :=
  (s.layers.flatMap Bindings.names).eraseDups.mergeSort fun a b => decide (a ≤ b)

/-- Binds a local name. -/
def assign (s : Scope) (name : String) (value : Value) : Scope :=
  { s with locals := s.locals.set name value }

theorem lookup?_assign (s : Scope) (name other : String) (value : Value) :
    (s.assign name value).lookup? other =
      if other = name then (s.frames.findSome? (Bindings.get? name)).or (some value)
      else s.lookup? other := by
  by_cases h : other = name
  · subst h
    simp [lookup?, layers, assign, List.findSome?_append, Bindings.get?_set_self, List.findSome?]
  · simp [lookup?, layers, assign, List.findSome?_append, Bindings.get?_set_of_ne h, h,
      List.findSome?]

/-- Opens a frame. -/
def push (s : Scope) (frame : Bindings) : Scope := { s with frames := frame :: s.frames }

/-- Binds a name in the innermost frame. -/
def bind (s : Scope) (name : String) (value : Value) : Scope :=
  match s.frames with
  | [] => s
  | frame :: outer => { s with frames := frame.set name value :: outer }

/-- Closes the innermost frame. -/
def pop (s : Scope) : Scope := { s with frames := s.frames.tail }

theorem pop_push (s : Scope) (frame : Bindings) : (s.push frame).pop = s := rfl

/-- A scope that shows the globals and some bindings, and nothing else. -/
def isolated (s : Scope) (bindings : Bindings) : Scope :=
  { toSurroundings := s.toSurroundings.isolated bindings, locals := [] }

/-- The number of open frames. -/
def depth (s : Scope) : Nat := s.frames.length

/-- The value at the end of a path. -/
def follow (s : Scope) (path : Path) : Except Fault Value :=
  Path.follow (s.lookup path.name) path.segments

/-- The scope on one line: its local names and its depth. -/
def summary (s : Scope) : String :=
  let names := s.locals.names.mergeSort fun a b => decide (a ≤ b)
  "<Context scope=[" ++ String.intercalate ", " (names.map Text.quoted) ++ "] depth=" ++
    toString s.depth ++ ">"

end Scope

end Liquid
