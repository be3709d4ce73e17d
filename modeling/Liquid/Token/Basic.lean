import Liquid.Text.Quoted

/-!
# Tokens

A template is read as a list of tokens: plain text, the delimiters of outputs and tags, and what
stands between them.  Each token knows where in the source it begins.

* `Position.offset_after`: the offset of a place is the number of characters before it.
* `Position.among_places`: the places of a source can be listed once and for all.
-/
namespace Liquid

/-- A place in a source: the number of characters before it, its line from 1 and its column
from 0. -/
structure Position where
  offset : Nat
  line : Nat
  column : Nat
  deriving DecidableEq, Repr

namespace Position

/-- The beginning of a source. -/
def start : Position := ⟨0, 1, 0⟩

/-- The place behind a character.  Only a line feed begins a line. -/
def step (p : Position) (c : Char) : Position :=
  if c = '\n' then ⟨p.offset + 1, p.line + 1, 0⟩ else ⟨p.offset + 1, p.line, p.column + 1⟩

/-- The place behind a text that begins a source. -/
def after (text : List Char) : Position := text.foldl step start

theorem after_nil : after [] = start := rfl

theorem offset_foldl_step (text : List Char) (p : Position) :
    (text.foldl step p).offset = p.offset + text.length := by
  induction text generalizing p with
  | nil => rfl
  | cons c rest ih =>
    rw [List.foldl_cons, ih, List.length_cons]
    unfold step; split <;> simp only [] <;> omega

theorem offset_after (text : List Char) : (after text).offset = text.length := by
  rw [after, offset_foldl_step]; simp [start]

/-- The place at which the last part `here` of a source begins. -/
def of (source here : List Char) : Position := after (source.take (source.length - here.length))

/-- The places of the characters of a text that begins at `p`, and the place of its end, added to
places before them. -/
def placesFrom (before : Array Position) (p : Position) : List Char → Array Position
  | [] => before.push p
  | c :: rest => placesFrom (before.push p) (p.step c) rest

/-- The places of all characters of a source, and the place of its end. -/
def places (source : List Char) : Array Position := placesFrom #[] start source

/-- The place at which the last part `here` of a source begins, whose places are known. -/
def among (places : Array Position) (here : List Char) : Position :=
  (places[places.size - 1 - here.length]?).getD start

theorem size_placesFrom (before : Array Position) (p : Position) (text : List Char) :
    (placesFrom before p text).size = before.size + text.length + 1 := by
  induction text generalizing before p with
  | nil => simp [placesFrom]
  | cons c rest ih => rw [placesFrom, ih, Array.size_push, List.length_cons]; omega

theorem placesFrom_of_lt (before : Array Position) (p : Position) (text : List Char) {i : Nat}
    (h : i < before.size) : (placesFrom before p text)[i]? = before[i]? := by
  induction text generalizing before p with
  | nil => simp [placesFrom, Array.getElem?_push, Nat.ne_of_lt h]
  | cons c rest ih =>
    rw [placesFrom, ih _ _ (by rw [Array.size_push]; omega), Array.getElem?_push,
      if_neg (Nat.ne_of_lt h)]

theorem placesFrom_size_add (before : Array Position) (p : Position) (text : List Char) {k : Nat}
    (h : k ≤ text.length) :
    (placesFrom before p text)[before.size + k]? = some ((text.take k).foldl step p) := by
  induction text generalizing before p k with
  | nil =>
    obtain rfl : k = 0 := by simpa using h
    simp [placesFrom]
  | cons c rest ih =>
    cases k with
    | zero =>
      rw [placesFrom, Nat.add_zero, placesFrom_of_lt _ _ _ (by simp)]
      simp
    | succ k =>
      have := ih (before.push p) (p.step c) (Nat.le_of_succ_le_succ h)
      rw [Array.size_push, Nat.add_assoc, Nat.add_comm 1 k] at this
      rw [placesFrom, this, List.take_succ_cons, List.foldl_cons]

theorem among_places (source here : List Char) : among (places source) here = of source here := by
  have h := placesFrom_size_add #[] start source (Nat.sub_le source.length here.length)
  rw [Array.size_empty, Nat.zero_add] at h
  simp only [among, places, size_placesFrom, Array.size_empty, Nat.zero_add, Nat.add_sub_cancel, h,
    Option.getD_some]
  rfl

end Position

/-- The kinds of token. -/
inductive Token.Kind where
  | data
  | raw
  | variableBegin
  | variableEnd
  | blockBegin
  | blockEnd
  | name
  | string
  | integer
  | float
  | dot
  | range
  | pipe
  | colon
  | comma
  | assign
  | leftBracket
  | rightBracket
  | leftParen
  | rightParen
  | equal
  | notEqual
  | less
  | greater
  | lessOrEqual
  | greaterOrEqual
  | eof
  deriving DecidableEq, Repr

/-- The label of a kind. -/
def Token.Kind.label : Token.Kind → String
  | .data => "DATA"
  | .raw => "RAW"
  | .variableBegin => "VARIABLE_BEGIN"
  | .variableEnd => "VARIABLE_END"
  | .blockBegin => "BLOCK_BEGIN"
  | .blockEnd => "BLOCK_END"
  | .name => "NAME"
  | .string => "STRING"
  | .integer => "INTEGER"
  | .float => "FLOAT"
  | .dot => "DOT"
  | .range => "RANGE"
  | .pipe => "PIPE"
  | .colon => "COLON"
  | .comma => "COMMA"
  | .assign => "ASSIGN"
  | .leftBracket => "LBRACKET"
  | .rightBracket => "RBRACKET"
  | .leftParen => "LPAREN"
  | .rightParen => "RPAREN"
  | .equal => "EQ"
  | .notEqual => "NE"
  | .less => "LT"
  | .greater => "GT"
  | .lessOrEqual => "LTEQ"
  | .greaterOrEqual => "GTEQ"
  | .eof => "EOF"

/-- A token: its kind, its text (of a string, what is between the quotes), where it begins, and
whether a delimiter asks for the blanks beside it to be trimmed. -/
structure Token where
  kind : Token.Kind
  text : String
  position : Position
  trim : Bool
  deriving DecidableEq, Repr

namespace Token

/-- A token on one line: its label, its text between quotes, and its place. -/
def summary (t : Token) : String :=
  "Token(" ++ t.kind.label ++ ", " ++ Text.quoted t.text ++ ", " ++ toString t.position.line ++
    ":" ++ toString t.position.column ++ ")"

/-- Whether the token is a name with this text. -/
def isName (t : Token) (name : String) : Bool := t.kind == .name && t.text == name

end Token

/-! ## What remains -/

theorem length_lt_cons {α : Type} (a : α) (s : List α) : s.length < (a :: s).length :=
  Nat.lt_succ_self s.length

theorem length_lt_cons_cons {α : Type} (a b : α) (s : List α) : s.length < (a :: b :: s).length :=
  Nat.lt_succ_of_lt (length_lt_cons b s)

end Liquid
