import Liquid.Filter.Basic
import Liquid.Text.Case

/-!
# Filters for lists

Nil counts as the empty list, and a value that is no sequence as a list of itself.

* `rank_before_irrefl`: nothing is sorted before itself.
-/
namespace Liquid.Filter

open Liquid.Text

/-- A property of an item. -/
def property (item name : Value) : Except Fault Value := item.segment (.text name.toText)

/-- The first item, or nil. -/
def first (v : Value) : FilterResult :=
  match v with
  | .list items | .tuple items => pure (items.head?.getD .nil)
  | .range start stop => do
    let _ ← orFault v.size?
    return (Value.memberAt? start stop 0).getD .nil
  | _ => pure .nil

/-- The last item, or nil. -/
def last (v : Value) : FilterResult :=
  match v with
  | .list items | .tuple items => pure (items.getLast?.getD .nil)
  | .range start stop => do
    let _ ← orFault v.size?
    return (Value.memberAt? start stop (-1)).getD .nil
  | _ => pure .nil

/-- The texts of the items with a separator between them. -/
def join (v separator : Value) : FilterResult := do
  match v.sequence? with
  | none => return .text v.toText
  | some items =>
    return .text (String.intercalate separator.toText ((← orFault items).map Value.toText))

/-- The number of characters, entries or items, and zero for all else. -/
def size (v : Value) : FilterResult := do return .int ((← orFault v.size?).getD 0)

/-! ## Sorting -/

/-- What a value is sorted by: numbers come first, then the texts of other values, then nil. -/
inductive Rank where
  | number (n : Number)
  | text (s : String)
  | missing

/-- The rank of a value. -/
def Rank.of : Value → Rank
  | .nil | .undefined => .missing
  | .number n => .number n
  | v => .text v.toText

/-- Whether one rank comes strictly before another. -/
def Rank.before : Rank → Rank → Bool
  | .number m, .number n => m.lt n
  | .number _, _ => true
  | .text s, .text t => decide (s < t)
  | .text _, .missing => true
  | _, _ => false

theorem rank_before_irrefl (s : String) : (Rank.text s).before (.text s) = false := by
  simp [Rank.before]

/-- What a value is sorted by when the case of letters does not count. -/
def Rank.folded : Value → Rank
  | .nil | .undefined => .missing
  | v => .text (String.ofList (fold v.chars))

/-- The items sorted by the ranks that they, or one of their properties, have.  Items of equal rank
keep their order. -/
def sortBy (rank : Value → Rank) (v name : Value) : FilterResult := orFault do
  let items ← v.items?
  let keyed ← items.mapM fun item => do
    let key ← if name.isNil then pure item else property item name
    return (rank key, item)
  let sorted := keyed.mergeSort fun (a, _) (b, _) => !b.before a
  return .list (sorted.map Prod.snd)

/-- The items in reverse order. -/
def reverse (v : Value) : FilterResult := do return .list (← orFault v.items?).reverse

/-! ## Duplicates -/

mutual

/-- Whether a value can be told apart by itself.  Lists, mappings and sets cannot. -/
def isSimple : Value → Bool
  | .list _ | .mapping _ | .set _ => false
  | .tuple items => allSimple items
  | _ => true

/-- Whether all values can be told apart by themselves. -/
def allSimple : List Value → Bool
  | [] => true
  | v :: rest => isSimple v && allSimple rest

end

/-- Whether one key comes strictly before another; texts have no place among other keys. -/
def keyBefore? : Key → Key → Except Fault Bool
  | .text s, .text t => pure (decide (s < t))
  | k, l =>
    match k.number?, l.number? with
    | some m, some n => pure (m.lt n)
    | _, _ => throw .wrongType

/-- Puts an entry in its place among sorted entries. -/
def insertEntry (entry : Key × Value) : List (Key × Value) → Except Fault (List (Key × Value))
  | [] => pure [entry]
  | other :: rest => do
    if ← keyBefore? entry.1 other.1 then return entry :: other :: rest
    else return other :: (← insertEntry entry rest)

/-- The entries sorted by their keys. -/
def sortEntries (entries : List (Key × Value)) : Except Fault (List (Key × Value)) :=
  entries.foldlM (fun sorted entry => insertEntry entry sorted) []

mutual

/-- The value with the entries of all mappings inside it sorted by their keys. -/
def sortKeys : Value → Except Fault Value
  | .list items => do return .list (← sortKeysOfItems items)
  | .tuple items => do return .tuple (← sortKeysOfItems items)
  | .mapping entries => do return .mapping (← sortEntries (← sortKeysOfEntries entries))
  | v => pure v

/-- The values with the entries of all mappings inside them sorted. -/
def sortKeysOfItems : List Value → Except Fault (List Value)
  | [] => pure []
  | v :: rest => do return (← sortKeys v) :: (← sortKeysOfItems rest)

/-- The entries with the entries of all mappings inside them sorted. -/
def sortKeysOfEntries : List (Key × Value) → Except Fault (List (Key × Value))
  | [] => pure []
  | (k, v) :: rest => do return (k, ← sortKeys v) :: (← sortKeysOfEntries rest)

end

/-- What an item is told apart by: itself, or its text in JSON. -/
inductive Mark where
  | truth (b : Bool)
  | value (v : Value)
  | json (text : String)

/-- The mark of an item. -/
def Mark.of (v : Value) : Except Fault Mark :=
  if isSimple v then
    match v with
    | .bool b => pure (.truth b)
    | v => pure (.value v)
  else do return .json ((← sortKeys v).json .spaced)

/-- Whether two marks are the same. -/
def Mark.same : Mark → Mark → Bool
  | .truth a, .truth b => a == b
  | .value v, .value w => v.same w
  | .json s, .json t => s == t
  | _, _ => false

/-- The items without those whose mark was seen before. -/
def uniqFrom (mark : Value → Except Fault Mark) (seen : List Mark) :
    List Value → Except Fault (List Value)
  | [] => pure []
  | item :: rest => do
    let m ← mark item
    if seen.any m.same then uniqFrom mark seen rest
    else return item :: (← uniqFrom mark (m :: seen) rest)

/-- The items without duplicates, by themselves or by one of their properties. -/
def uniq (v name : Value) : FilterResult := orFault do
  let mark (item : Value) : Except Fault Mark :=
    match name with
    | .nil => Mark.of item
    | name => do Mark.of (← property item name)
  return .list (← uniqFrom mark [] (← v.items?))

/-! ## Choosing items -/

/-- A property of every item; where it is missing, nil. -/
def map (v name : Value) : FilterResult := orFault do
  return .list (← (← v.items?).mapM fun item => do return (← property item name).orNil)

/-- The items with a property that equals a value or, if none is given, that is true. -/
def «where» (v name target : Value) : FilterResult := orFault do
  return .list (← (← v.items?).filterM fun item => do
    match target with
    | .undefined => return (← property item name).isTruthy
    | target => (← property item name).equals target)

/-- The items that are not nil, or have a property that is not nil. -/
def compact (v name : Value) : FilterResult := orFault do
  return .list (← (← v.items?).filterM fun item => do
    match name with
    | .nil => return !item.isNil
    | name => return !(← property item name).isNil)

/-- The items of two lists. -/
def concat (v other : Value) : FilterResult := orFault do
  return .list ((← v.items?) ++ (← other.items?))

/-- The filters for lists. -/
def lists : List (String × Builtin) :=
  [ ("first", .plain first),
    ("last", .plain last),
    ("join", .unary (.or "separator" (.text ",")) join),
    ("size", .plain size),
    ("sort", .unary (.or "prop" .nil) (sortBy Rank.of)),
    ("sort_natural", .unary (.or "prop" .nil) (sortBy Rank.folded)),
    ("reverse", .plain reverse),
    ("uniq", .unary (.or "prop" .nil) uniq),
    ("map", .unary (.or "prop" (.text "")) map),
    ("where", .binary (.or "prop" (.text "")) (.or "target" .undefined) «where»),
    ("compact", .unary (.or "prop" .nil) compact),
    ("concat", .unary (.or "other" .nil) concat) ]

end Liquid.Filter
