import Liquid.Text.Search
import Liquid.Value.Text

/-!
# Equality, order and membership

How templates compare values.  Nil and undefined are equal, a truth value equals only truth values,
and the words `empty` and `blank` equal what is empty or blank.  Order is that of numbers when both
sides stand for numbers and that of texts otherwise, and nil stands in no order.

* `compare_nil_left`, `compare_nil_right`: nothing is before or after nil.
-/
namespace Liquid

/-- The four ways to ask for an order. -/
inductive Relation where
  | less
  | greater
  | lessOrEqual
  | greaterOrEqual
  deriving DecidableEq, Repr

/-- The relation with a given sign. -/
def Relation.ofText? : String → Option Relation
  | "<" => some .less
  | ">" => some .greater
  | "<=" => some .lessOrEqual
  | ">=" => some .greaterOrEqual
  | _ => none

/-- Whether a relation holds, from the strict order in both directions. -/
def Relation.holds (r : Relation) (before after : Bool) : Bool :=
  match r with
  | .less => before
  | .greater => after
  | .lessOrEqual => !after
  | .greaterOrEqual => !before

/-- Whether the word fits a value: it is empty or, for `blank`, also nil, false or a text of
blanks. -/
def Literal.fits (word : Literal) (v : Value) : Except Fault Bool :=
  let hasNoItems : Except Fault Bool := do return (← v.size?) == some 0
  match word, v with
  | .blank, .nil | .blank, .undefined | .blank, .bool false => pure true
  | .blank, .text s => pure (s.toList.all Text.isBlank)
  | _, _ => hasNoItems

namespace Value

/-- The value under a key, and the other entries. -/
def remove? (key : Key) : List (Key × Value) → Option (Value × List (Key × Value))
  | [] => none
  | (k, v) :: rest =>
    if k.same key then some (v, rest)
    else (remove? key rest).map fun (found, others) => (found, (k, v) :: others)

mutual

/-- Whether two values are the same.  Numbers and truth values are compared as numbers, mappings
and sets without regard to the order of their entries and members, and objects and loops by
identity.  The objects that are parts of dates have no number of their own; they are the same if
they show the same. -/
def same : Value → Value → Bool
  | .nil, .nil => true
  | .undefined, .undefined => true
  | .literal w, .literal x => w == x
  | .bool b, .bool c => b == c
  | .bool b, .number n => (Number.int (if b then 1 else 0)).eq n
  | .number n, .bool b => n.eq (.int (if b then 1 else 0))
  | .number m, .number n => m.eq n
  | .text s, .text t => s == t
  | .list xs, .list ys => sameItems xs ys
  | .tuple xs, .tuple ys => sameItems xs ys
  | .range a b, .range c d =>
    rangeLength a b == rangeLength c d && (rangeLength a b == 0 || a == c)
  | .set xs, .set ys => sameMembers xs ys
  | .mapping xs, .mapping ys => sameEntries xs ys
  | .date d, .date e => d == e
  | .datetime t, .datetime u => t.same u
  | .object i s _, .object j t _ => i == j && (i != 0 || s == t)
  | .loop l, .loop m => l.id == m.id
  | _, _ => false
termination_by structural v => v

/-- Whether two lists have the same values in the same order. -/
def sameItems : List Value → List Value → Bool
  | [], [] => true
  | x :: xs, y :: ys => same x y && sameItems xs ys
  | _, _ => false
termination_by structural items => items

/-- Whether two sets have the same members. -/
def sameMembers : List Value → List Value → Bool
  | [], ys => ys.isEmpty
  | x :: xs, ys => ys.any (fun y => same x y) && sameMembers xs (ys.eraseP fun y => same x y)
termination_by structural members => members

/-- Whether two mappings have the same values under the same keys. -/
def sameEntries : List (Key × Value) → List (Key × Value) → Bool
  | [], ys => ys.isEmpty
  | (k, v) :: xs, ys =>
    match remove? k ys with
    | some (w, others) => same v w && sameEntries xs others
    | none => false
termination_by structural entries => entries

end

/-- Whether the value is a truth value. -/
def isBool : Value → Bool
  | .bool _ => true
  | _ => false

/-- Undefined counts as nil. -/
def orNil : Value → Value
  | .undefined => .nil
  | v => v

/-- Equality as templates have it. -/
def equals (left right : Value) : Except Fault Bool :=
  match left, right with
  | _, .literal w => w.fits left
  | .literal w, _ => w.fits right
  | _, _ => pure (left.isBool == right.isBool && same left.orNil right.orNil)

/-- Whether one value is strictly before another. -/
def before (left right : Value) : Bool :=
  match left.number?, right.number? with
  | some m, some n => m.lt n
  | _, _ => decide (left.toText < right.toText)

/-- Order as templates have it. -/
def compare (left : Value) (r : Relation) (right : Value) : Bool :=
  !left.isNil && !right.isNil && r.holds (left.before right) (right.before left)

theorem compare_nil_left (r : Relation) (v : Value) : compare .nil r v = false := by
  simp [compare, isNil]

theorem compare_nil_right (r : Relation) (v : Value) : compare v r .nil = false := by
  simp [compare, isNil]

/-- A sign that asks for no order. -/
structure UnknownSign where
  sign : String

/-- What is said of a sign that asks for no order. -/
def UnknownSign.message (e : UnknownSign) : String :=
  "Unknown comparison operator: " ++ Text.quoted e.sign

/-- Order by the sign of the relation; beside nil, any sign gives false. -/
def compareBy (left : Value) (sign : String) (right : Value) : Except UnknownSign Bool :=
  if left.isNil || right.isNil then pure false
  else
    match Relation.ofText? sign with
    | some r => pure (left.compare r right)
    | none => throw ⟨sign⟩

/-- Whether one of the items equals a value. -/
def anyEquals (item : Value) : List Value → Except Fault Bool
  | [] => pure false
  | v :: rest => do if ← v.equals item then return true else anyEquals item rest

/-- Whether a value contains another: as a part of its text, as a key or as an item. -/
def contains (container item : Value) : Except Fault Bool :=
  match container with
  | .text s => pure (Text.occursIn item.chars s.toList)
  | .mapping entries => pure ((item.key?.bind fun k => find? k entries).isSome)
  | .list items | .tuple items | .set items => anyEquals item items
  | .range start stop => anyEquals item (rangeItems start stop)
  | _ => pure false

end Value

end Liquid
