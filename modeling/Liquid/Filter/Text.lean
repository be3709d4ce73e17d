import Liquid.Filter.Basic
import Liquid.Text.Case
import Liquid.Text.Html
import Liquid.Text.Percent

/-!
# Filters for texts

Each of them works on the text of its value.

* `append_chars`: the text of an appended value is the text of the value and that of the suffix.
-/
namespace Liquid.Filter

open Liquid.Text

/-- A filter that changes the text of a value. -/
def onText (f : List Char → List Char) (v : Value) : FilterResult := pure (.ofChars (f v.chars))

/-- The text without line ends, with something in their place. -/
def replaceLineEnds (new : List Char) (s : List Char) : List Char :=
  replace ['\n'] new (replace ['\r', '\n'] new s)

/-- The text behind percent escapes. -/
def urlDecode (v : Value) : FilterResult :=
  match Percent.decode v.chars with
  | .ok s => pure (.ofChars s)
  | .error (.malformed position found) =>
    throw (filterError "url_decode"
      ("Malformed escape sequence at position " ++ toString position ++ ": " ++
        quoted (String.ofList found)))
  | .error (.undecodable reason) =>
    throw { filterError "url_decode" ("Escape sequence is not valid UTF-8: " ++ reason.message) with
      cause := some (.ofFault { kind := .undecodable }) }

/-- A text of at most so many characters, the mark of omission included. -/
def truncate (v length ellipsis : Value) : FilterResult :=
  let s := v.chars
  let limit := length.toInt 50
  if (s.length : Int) ≤ limit then pure (.text v.toText)
  else
    let tail := ellipsis.chars
    pure (.ofChars (s.take (limit - tail.length).toNat ++ tail))

/-- So many words of a text, and the mark of omission. -/
def truncateWords (v words ellipsis : Value) : FilterResult :=
  let count := words.toInt 15
  let parts := Text.words v.chars
  if (parts.length : Int) ≤ count then pure (.text v.toText)
  else pure (.ofChars (joinWith [' '] (parts.take count.toNat) ++ ellipsis.chars))

/-- The text behind another. -/
def prepend (v start : Value) : FilterResult := pure (.ofChars (start.chars ++ v.chars))

/-- The text before another. -/
def append (v ending : Value) : FilterResult := pure (.ofChars (v.chars ++ ending.chars))

theorem append_chars (v ending : Value) :
    (append v ending).map Value.chars = .ok (v.chars ++ ending.chars) := by
  simp [append, Value.ofChars, Value.chars, Value.toText, Except.map, pure, Except.pure]

/-- The place that a bound means among so many members: counted from the end if it is negative, and
not beyond either end. -/
def boundPlace (count : Nat) (bound : Int) : Nat :=
  if bound < 0 then (count + bound).toNat else min bound.toNat count

/-- The members from one bound up to another, or to the end. -/
def between {α : Type} (start : Int) (stop : Option Int) (xs : List α) : List α :=
  let last := (stop.map (boundPlace xs.length)).getD xs.length
  (xs.take last).drop (boundPlace xs.length start)

/-- The part of a sequence that begins at an offset, counted from the end if it is negative, and has
so many members.  A part that is counted from the end and reaches it has no bound there. -/
def window {α : Type} (offset : Int) (length : Option Int) (xs : List α) : List α :=
  match length with
  | none => between offset none xs
  | some n =>
    let stop := offset + max 0 n
    if offset < 0 ∧ 0 ≤ stop then between offset none xs else between offset (some stop) xs

/-- A part of a text or a sequence. -/
def slice (v offset length : Value) : FilterResult := do
  let length := if length.isNil then none else some (length.toInt 0)
  match v.sequence? with
  | some items => return .list (window (offset.toInt 0) length (← orFault items))
  | none => return .ofChars (window (offset.toInt 0) length v.chars)

/-- The parts of a text between separators.  A blank stands for any run of blanks, and nothing for
the place between two characters. -/
def split (v separator : Value) : FilterResult :=
  if v.isNil then pure (.list [])
  else
    let s := v.chars
    let parts := match separator.chars with
      | [] => s.map fun c => [c]
      | [' '] => Text.words s
      | sep => Text.split sep s
    pure (.list (parts.map Value.ofChars))

/-- The filters for texts. -/
def texts : List (String × Builtin) :=
  let nothing := Value.text ""
  [ ("upcase", .plain (onText upper)),
    ("downcase", .plain (onText lower)),
    ("capitalize", .plain (onText capitalize)),
    ("strip", .plain (onText trim)),
    ("lstrip", .plain (onText trimStart)),
    ("rstrip", .plain (onText trimEnd)),
    ("strip_html", .plain (onText Html.stripTags)),
    ("strip_newlines", .plain (onText (replaceLineEnds []))),
    ("newline_to_br", .plain (onText (replaceLineEnds "<br>".toList))),
    ("escape", .plain (onText Html.escape)),
    ("escape_once", .plain (onText Html.escapeOnce)),
    ("url_encode", .plain (onText Percent.encode)),
    ("url_decode", .plain urlDecode),
    ("truncate", .binary (.or "length" (.int 50)) (.or "ellipsis" (.text "...")) truncate),
    ("truncatewords", .binary (.or "words" (.int 15)) (.or "ellipsis" (.text "...")) truncateWords),
    ("prepend", .unary (.or "prefix" nothing) prepend),
    ("append", .unary (.or "suffix" nothing) append),
    ("replace", .binary (.or "search" nothing) (.or "replacement" nothing) fun v old new =>
      onText (replace old.chars new.chars) v),
    ("replace_first", .binary (.or "search" nothing) (.or "replacement" nothing) fun v old new =>
      onText (replaceFirst old.chars new.chars) v),
    ("remove", .unary (.or "search" nothing) fun v old => onText (replace old.chars []) v),
    ("remove_first", .unary (.or "search" nothing) fun v old =>
      onText (replaceFirst old.chars []) v),
    ("slice", .binary (.or "offset" (.int 0)) (.or "length" .nil) slice),
    ("split", .unary (.or "separator" (.text " ")) split) ]

end Liquid.Filter
