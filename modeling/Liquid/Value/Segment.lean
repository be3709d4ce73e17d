import Liquid.Value.Text

/-!
# Segments of a path

What `v.name` and `v[key]` mean: the value under a key, the item at a position, the number of
items, or an attribute.  What is missing is undefined.

* `segment_nil`: nil and undefined have no segments.
-/
namespace Liquid

namespace Value

/-- An item by position; negative positions count from the end. -/
def itemAt? (items : List Value) (position : Int) : Option Value :=
  let i := if position < 0 then position + items.length else position
  if i < 0 then none else items[i.toNat]?

/-- A member of a range by position. -/
def memberAt? (start stop position : Int) : Option Value :=
  let i := if position < 0 then position + rangeLength start stop else position
  if 0 ≤ i ∧ i < rangeLength start stop then some (.int (start + i)) else none

/-- The public attributes of a number. -/
def numberAttributes : Number → List (String × Value)
  | .int n => [("real", .int n), ("imag", .int 0), ("numerator", .int n), ("denominator", .int 1)]
  | .float x => [("real", .float x), ("imag", .float 0.0)]

/-- The public attributes of a day. -/
def dateAttributes (d : Date) : List (String × Value) :=
  [("year", .int d.year), ("month", .int d.month), ("day", .int d.day),
    ("min", .date Date.first), ("max", .date Date.last),
    ("resolution", .object 0 "1 day, 0:00:00" [])]

/-- The public attributes of a day with a time. -/
def datetimeAttributes (t : DateTime) : List (String × Value) :=
  [("hour", .int t.hour), ("minute", .int t.minute), ("second", .int t.second),
    ("microsecond", .int t.microsecond), ("fold", .int 0),
    ("tzinfo", (t.offset.map fun o => Value.object 0 (DateTime.zoneName o) []).getD .nil),
    ("min", .datetime ⟨Date.first, 0, 0, 0, 0, none⟩),
    ("max", .datetime ⟨Date.last, 23, 59, 59, 999999, none⟩),
    ("resolution", .object 0 "0:00:00.000001" [])] ++ dateAttributes t.date

/-- The public attributes of a loop. -/
def loopAttributes (l : Loop) : List (String × Value) :=
  l.fields ++ [("parentloop", (l.parent.map Value.loop).getD .nil)]

/-- The attributes of a value that is no collection and no text. -/
def attributes : Value → List (String × Value)
  | .bool b => numberAttributes (.int (if b then 1 else 0))
  | .number n => numberAttributes n
  | .date d => dateAttributes d
  | .datetime t => datetimeAttributes t
  | .object _ _ attributes => attributes
  | .loop l => loopAttributes l
  | _ => []

/-- A public attribute: names that begin with `_` are private. -/
def attributeNamed (v : Value) (name : String) : Value :=
  if name.toList.head? = some '_' then .undefined
  else ((v.attributes.find? fun (n, _) => n == name).map Prod.snd).getD .undefined

/-- The number of items as a value. -/
def sizeValue (v : Value) : Except Fault Value := do
  match ← v.size? with
  | some n => return .int n
  | none => return .undefined

/-- A named part of a sequence: its size, or its first or last item. -/
def sequencePart (v : Value) (name : String) (at? : Int → Option Value) : Except Fault Value := do
  if name = "size" then v.sizeValue
  else if name = "first" then
    let _ ← v.size?
    return (at? 0).getD .undefined
  else if name = "last" then
    let _ ← v.size?
    return (at? (-1)).getD .undefined
  else return .undefined

/-- A part of a sequence, by position or name. -/
def sequenceSegment (v : Value) (key : Value) (at? : Int → Option Value) : Except Fault Value :=
  match key with
  | .number (.int i) => pure ((at? i).getD .undefined)
  | .text name => v.sequencePart name at?
  | _ => pure .undefined

/-- One step of a path from a value. -/
def segment (v key : Value) : Except Fault Value :=
  match v with
  | .nil | .undefined => pure .undefined
  | .mapping entries =>
    match key.key?.bind fun k => find? k entries with
    | some found => pure found
    | none => if key.key? = some (.text "size") then v.sizeValue else pure .undefined
  | .list items | .tuple items => v.sequenceSegment key (itemAt? items)
  | .range start stop => v.sequenceSegment key (memberAt? start stop)
  | .text _ => if key.key? = some (.text "size") then v.sizeValue else pure .undefined
  | _ =>
    match key with
    | .text name => pure (v.attributeNamed name)
    | _ => pure .undefined

theorem segment_nil (key : Value) : segment .nil key = .ok .undefined ∧
    segment .undefined key = .ok .undefined := ⟨rfl, rfl⟩

end Value

end Liquid
