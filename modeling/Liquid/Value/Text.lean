import Liquid.Text.Quoted
import Liquid.Value.Basic

/-!
# The text of a value

How a value is written into the output.  Nil writes nothing, the items of a collection are written
one after the other, and a mapping is written as a JSON object.  Inside an object, values that JSON
does not know are written as quoted texts.

* `text_list_append`: the text of a list is put together from the texts of its parts.
-/
namespace Liquid

open Liquid.Text

/-- How JSON is spelled: what stands between items and after keys, and whether every character
beyond ASCII is escaped. -/
structure JsonStyle where
  comma : String
  colon : String
  asciiOnly : Bool

namespace JsonStyle

/-- No blanks, and characters as they are. -/
def compact : JsonStyle := ⟨",", ":", false⟩

/-- Blanks after commas and colons, and ASCII alone. -/
def spaced : JsonStyle := ⟨", ", ": ", true⟩

end JsonStyle

namespace Json

/-- One unit of a text as an escape. -/
def unitEscape (n : Nat) : List Char := '\\' :: 'u' :: hex 4 n

/-- One character of a JSON text. -/
def escapeChar (asciiOnly : Bool) (c : Char) : List Char :=
  if c = '"' ∨ c = '\\' then ['\\', c]
  else if c = '\n' then ['\\', 'n']
  else if c = '\r' then ['\\', 'r']
  else if c = '\t' then ['\\', 't']
  else if c.toNat = 8 then ['\\', 'b']
  else if c.toNat = 12 then ['\\', 'f']
  else if c.toNat < 32 then unitEscape c.toNat
  else if asciiOnly && 126 < c.toNat then
    if c.toNat < 0x10000 then unitEscape c.toNat
    else
      unitEscape (0xd800 + (c.toNat - 0x10000) / 0x400) ++
        unitEscape (0xdc00 + (c.toNat - 0x10000) % 0x400)
  else [c]

/-- A text in JSON. -/
def text (asciiOnly : Bool) (s : String) : String :=
  String.ofList ('"' :: s.toList.flatMap (escapeChar asciiOnly) ++ ['"'])

/-- A number in JSON. -/
def number : Number → String
  | .int n => toString n
  | .float x =>
    if x.isFinite then floatText x
    else if x.isNaN then "NaN"
    else if Binary.isNegative x then "-Infinity" else "Infinity"

/-- A truth value in JSON. -/
def bool (b : Bool) : String := if b then "true" else "false"

/-- A key of an object in JSON. -/
def key (asciiOnly : Bool) : Key → String
  | .text s => text asciiOnly s
  | .nil => text asciiOnly "null"
  | .bool b => text asciiOnly (bool b)
  | .number n => text asciiOnly (number n)

/-- Texts in brackets with a separator between. -/
def inBrackets (left right separator : String) (parts : List String) : String :=
  left ++ String.intercalate separator parts ++ right

end Json

/-- The fields that a loop shows: one-based and zero-based position, the same from the end, whether
it stands at the first or last item, and the number of items. -/
def Loop.fields (l : Loop) : List (String × Value) :=
  [("index", .int (l.position + 1)), ("index0", .int l.position),
    ("rindex", .int (l.length - l.position)), ("rindex0", .int (l.length - l.position - 1)),
    ("first", .bool (l.position == 0)), ("last", .bool (l.position == l.length - 1)),
    ("length", .int l.length)]

/-- The text of a loop: its fields as an object. -/
def Loop.text (l : Loop) : String :=
  let field : String × Value → String := fun (name, v) =>
    Json.text false name ++ ":" ++
      match v with
      | .bool b => Json.bool b
      | .number n => Json.number n
      | _ => ""
  Json.inBrackets "\x7b" "\x7d" "," (l.fields.map field)

namespace Value

/-- The elements of a day in parentheses. -/
def dateArguments (d : Date) : List String := [toString d.year, toString d.month, toString d.day]

mutual

/-- A value as a member of a set shows it. -/
def shown : Value → String
  | .nil => "None"
  | .undefined => "UNDEFINED"
  | .literal .empty => "EMPTY"
  | .literal .blank => "BLANK"
  | .bool b => if b then "True" else "False"
  | .number n => n.text
  | .text s => quoted s
  | .list items => Json.inBrackets "[" "]" ", " (shownItems items)
  | .tuple [item] => "(" ++ shown item ++ ",)"
  | .tuple items => Json.inBrackets "(" ")" ", " (shownItems items)
  | .range start stop => "range(" ++ toString start ++ ", " ++ toString stop ++ ")"
  | .set [] => "set()"
  | .set items => Json.inBrackets "\x7b" "\x7d" ", " (shownItems items)
  | .mapping entries => Json.inBrackets "\x7b" "\x7d" ", " (shownEntries entries)
  | .date d => Json.inBrackets "datetime.date(" ")" ", " (dateArguments d)
  | .datetime t =>
    let clock := [toString t.hour, toString t.minute] ++
      (if t.second = 0 ∧ t.microsecond = 0 then [] else [toString t.second]) ++
      (if t.microsecond = 0 then [] else [toString t.microsecond])
    Json.inBrackets "datetime.datetime(" ")" ", " (dateArguments t.date ++ clock)
  | .object _ s _ => s
  | .loop l => "LoopContext(index=" ++ toString (l.position + 1) ++ "/" ++ toString l.length ++ ")"

/-- The values of a list as a set shows them. -/
def shownItems : List Value → List String
  | [] => []
  | v :: rest => shown v :: shownItems rest

/-- The entries of a mapping as a set shows them. -/
def shownEntries : List (Key × Value) → List String
  | [] => []
  | (k, v) :: rest => (shownKey k ++ ": " ++ shown v) :: shownEntries rest

/-- A key as a set shows it. -/
def shownKey : Key → String
  | .nil => "None"
  | .bool b => if b then "True" else "False"
  | .number n => n.text
  | .text s => quoted s

end

/-- What is written in JSON, as a quoted text, for a value that JSON does not know. -/
def plainText : Value → String
  | .date d => d.iso
  | .datetime t => t.iso " "
  | .loop l => l.text
  | .undefined | .literal _ => ""
  | v => v.shown

mutual

/-- The value in JSON. -/
def json (style : JsonStyle) : Value → String
  | .nil => "null"
  | .bool b => Json.bool b
  | .number n => Json.number n
  | .text s => Json.text style.asciiOnly s
  | .list items => Json.inBrackets "[" "]" style.comma (jsonItems style items)
  | .tuple items => Json.inBrackets "[" "]" style.comma (jsonItems style items)
  | .mapping entries => Json.inBrackets "\x7b" "\x7d" style.comma (jsonEntries style entries)
  | .undefined => Json.text style.asciiOnly ""
  | .literal _ => Json.text style.asciiOnly ""
  | .range start stop => Json.text style.asciiOnly (plainText (.range start stop))
  | .set items => Json.text style.asciiOnly (plainText (.set items))
  | .date d => Json.text style.asciiOnly (plainText (.date d))
  | .datetime t => Json.text style.asciiOnly (plainText (.datetime t))
  | .object _ s _ => Json.text style.asciiOnly s
  | .loop l => Json.text style.asciiOnly l.text

/-- The values of a list in JSON. -/
def jsonItems (style : JsonStyle) : List Value → List String
  | [] => []
  | v :: rest => json style v :: jsonItems style rest

/-- The entries of a mapping in JSON. -/
def jsonEntries (style : JsonStyle) : List (Key × Value) → List String
  | [] => []
  | (k, v) :: rest =>
    (Json.key style.asciiOnly k ++ style.colon ++ json style v) :: jsonEntries style rest

end

mutual

/-- The text of a value. -/
def toText : Value → String
  | .nil | .undefined | .literal _ => ""
  | .bool b => Json.bool b
  | .number n => n.text
  | .text s => s
  | .list items => itemsText items
  | .tuple items => itemsText items
  | .set items => itemsText items
  | .range start stop =>
    String.join ((List.range (rangeLength start stop)).map fun (i : Nat) => toString (start + i))
  | .mapping entries => json .compact (.mapping entries)
  | .date d => d.iso
  | .datetime t => t.iso "T"
  | .object _ s _ => s
  | .loop l => l.text

/-- The texts of the values of a list, one after the other. -/
def itemsText : List Value → String
  | [] => ""
  | v :: rest => toText v ++ itemsText rest

end

/-- The text of a value as a list of characters. -/
def chars (v : Value) : List Char := v.toText.toList

theorem itemsText_append (xs ys : List Value) :
    itemsText (xs ++ ys) = itemsText xs ++ itemsText ys := by
  induction xs with
  | nil => simp [itemsText]
  | cons v rest ih => simp [itemsText, ih, String.append_assoc]

theorem text_list_append (xs ys : List Value) :
    toText (.list (xs ++ ys)) = toText (.list xs) ++ toText (.list ys) := by
  simp [toText, itemsText_append]

end Value

end Liquid
