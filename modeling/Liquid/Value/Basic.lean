import Liquid.Calendar.Basic
import Liquid.Fault
import Liquid.Number.Reader
import Liquid.Text.Blank

/-!
# Values

What a template computes with.  A value is nil, a truth value, a number, a text, one of several
kinds of collection, a date, an object of the host, or the position of a running loop; two more
values stand for a name that means nothing and for the words `empty` and `blank`.

* `isTruthy_eq_false_iff`: the false values are nil, undefined, `false`, the empty text and the
  two words.
* `toList?_list`: a list is its own list of items.
-/
namespace Liquid

/-- The words that a value can be compared with to ask whether it is empty. -/
inductive Literal where
  | empty
  | blank
  deriving DecidableEq, Repr

/-- The keys of a mapping. -/
inductive Key where
  | nil
  | bool (b : Bool)
  | number (n : Number)
  | text (s : String)
  deriving DecidableEq

/-- A running loop: which one it is, how many items it has, at which of them it stands (from 0),
and the loop around it. -/
structure Loop where
  id : Nat
  length : Int
  position : Int
  parent : Option Loop

/-- A value.  A range stands for the whole numbers from `start` up to but excluding `stop`.  A
mapping keeps its entries in the order of their insertion.  Objects of the host are told apart by
number; they show a text and have attributes. -/
inductive Value where
  | nil
  | undefined
  | literal (word : Literal)
  | bool (b : Bool)
  | number (n : Number)
  | text (s : String)
  | list (items : List Value)
  | tuple (items : List Value)
  | range (start stop : Int)
  | set (items : List Value)
  | mapping (entries : List (Key × Value))
  | date (d : Date)
  | datetime (t : DateTime)
  | object (id : Nat) (shown : String) (attributes : List (String × Value))
  | loop (l : Loop)

instance : Inhabited Value := ⟨.nil⟩

namespace Key

/-- The number a key stands for; `true` counts as one and `false` as zero. -/
def number? : Key → Option Number
  | .number n => some n
  | .bool b => some (.int (if b then 1 else 0))
  | _ => none

/-- Whether two keys are the same: numbers and truth values by their number. -/
def same : Key → Key → Bool
  | .nil, .nil => true
  | .text s, .text t => s == t
  | k, l =>
    match k.number?, l.number? with
    | some m, some n => m.eq n
    | _, _ => false

/-- The key as a value. -/
def toValue : Key → Value
  | .nil => .nil
  | .bool b => .bool b
  | .number n => .number n
  | .text s => .text s

end Key

namespace Value

/-- A whole number as a value. -/
def int (n : Int) : Value := .number (.int n)

/-- A float as a value. -/
def float (x : Float) : Value := .number (.float x)

/-- Nil and undefined. -/
def isNil : Value → Bool
  | .nil | .undefined => true
  | _ => false

/-- Whether a condition holds for the value.  Zero and empty collections are true. -/
def isTruthy : Value → Bool
  | .nil | .undefined | .literal _ => false
  | .bool b => b
  | .text s => s != ""
  | _ => true

theorem isTruthy_eq_false_iff (v : Value) :
    v.isTruthy = false ↔
      v = .nil ∨ v = .undefined ∨ v = .bool false ∨ v = .text "" ∨ ∃ w, v = .literal w := by
  cases v <;> simp [isTruthy]

/-- Lists, tuples and ranges: what can be indexed by position. -/
def isSequence : Value → Bool
  | .list _ | .tuple _ | .range _ _ => true
  | _ => false

/-- The number of members of a range. -/
def rangeLength (start stop : Int) : Nat := (stop - start).toNat

/-- The members of a range. -/
def rangeItems (start stop : Int) : List Value :=
  (List.range (rangeLength start stop)).map fun (i : Nat) => .int (start + i)

/-- The number of characters of a text, of entries of a mapping, or of items of a sequence. -/
def count? : Value → Option Nat
  | .text s => some s.length
  | .mapping entries => some entries.length
  | .list items | .tuple items => some items.length
  | .range start stop => some (rangeLength start stop)
  | _ => none

/-- The largest count that can be asked for. -/
def countLimit : Nat := Nat.pow 2 63 - 1

/-- The count, which a range may take beyond the limit. -/
def size? (v : Value) : Except Fault (Option Nat) :=
  match v.count? with
  | some n => if countLimit < n then throw .overflow else pure (some n)
  | none => pure none

/-- Nil, undefined, the empty text and empty collections. -/
def isEmpty (v : Value) : Except Fault Bool :=
  if v.isNil then pure true else do return (← v.size?) == some 0

/-- The finite number that a value stands for.  Texts are read as numbers. -/
def number? : Value → Option Number
  | .bool b => some (.int (if b then 1 else 0))
  | .number n => if n.isFinite then some n else none
  | .text s => Number.read? (Text.trim s.toList)
  | _ => none

/-- The whole part of the number that the value stands for, or `other`. -/
def toInt (v : Value) (other : Int) : Int := (v.number?.map Number.truncate).getD other

/-- The items to go through.  An entry of a mapping is the pair of its key and value, a text is a
single item, and what holds no items gives none. -/
def toList? : Value → Except Fault (List Value)
  | .list items | .tuple items | .set items => pure items
  | .range start stop =>
    if countLimit < rangeLength start stop then throw .overflow else pure (rangeItems start stop)
  | .mapping entries => pure (entries.map fun (k, v) => .list [k.toValue, v])
  | .text s => pure (if s = "" then [] else [.text s])
  | _ => pure []

theorem toList?_list (items : List Value) : (Value.list items).toList? = .ok items := rfl

/-- The items of a sequence. -/
def sequence? : Value → Option (Except Fault (List Value))
  | .list items | .tuple items => some (pure items)
  | .range start stop => some (toList? (.range start stop))
  | _ => none

/-- The value as a list: a sequence item by item, nil as none, all else as a single item. -/
def items? (v : Value) : Except Fault (List Value) :=
  match v.sequence? with
  | some items => items
  | none => pure (if v.isNil then [] else [v])

/-- The key that the value is in a mapping. -/
def key? : Value → Option Key
  | .nil => some .nil
  | .bool b => some (.bool b)
  | .number n => some (.number n)
  | .text s => some (.text s)
  | _ => none

/-- The value under a key. -/
def find? (key : Key) : List (Key × Value) → Option Value
  | [] => none
  | (k, v) :: rest => if k.same key then some v else find? key rest

/-- Puts a value under a key.  A key that is there already keeps its place and its spelling. -/
def put (key : Key) (value : Value) : List (Key × Value) → List (Key × Value)
  | [] => [(key, value)]
  | (k, v) :: rest => if k.same key then (k, value) :: rest else (k, v) :: put key value rest

/-- A mapping with these entries, of which the last one under a key counts. -/
def ofEntries (entries : List (Key × Value)) : Value :=
  .mapping (entries.foldl (fun m (k, v) => put k v m) [])

end Value

end Liquid
