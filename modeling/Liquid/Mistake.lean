import Liquid.Diagnostic.Code
import Liquid.Text.Similar
import Liquid.Token.Basic

/-!
# Mistakes in a template

What can be wrong with the text of a template, what is said about it, and what is suggested.

* `code_expected`: a token that is merely missing is a plain syntax error.
-/
namespace Liquid

/-- The ways in which the text of a template can be wrong. -/
inductive Mistake where
  | unclosedDelimiter (opener closer : String)
  | unterminatedString (quote : Char)
  | unexpectedCharacter (c : Char)
  | unclosedVerbatim (keyword ending : String)
  | expected (kind : Token.Kind) (got : Token)
  | expectedText (what : String)
  | expectedValue (got : String)
  | expectedProperty
  | expectedFilter
  | malformedArguments (filter : String)
  | positionalAfterKeyword (filter : String)
  | expectedArgument (filter : String)
  | unexpected (text : String)
  | emptyTag
  | expectedTag (got : String)
  | unknownTag (name : String) (known : List String)
  | strayBranch (keyword : String)
  | strayEnd (keyword : String)
  | unclosedBlock (name : String)
  | expectedEnd (name : String)
  | mismatchedEnd (name keyword : String) (openedAt : Nat)
  | unexpectedInside (name keyword : String)
  | expectedIn
  | unknownOption (got : String)
  | outsideLoop (keyword : String)
  | expectedQuotedName
  | noForInRender
  | doubleOption
  | unexpectedOption (got keyword : String)
  deriving DecidableEq, Repr

/-- How a kind of token is named in a message. -/
def Token.Kind.description : Token.Kind → String
  | .blockEnd => "'%\x7d'"
  | .variableEnd => "'\x7d\x7d'"
  | .name => "a name"
  | .string => "a string"
  | .rightParen => "')'"
  | .rightBracket => "']'"
  | .colon => "':'"
  | .range => "'..'"
  | .assign => "'='"
  | .eof => "end of template"
  | .data => "data"
  | .raw => "raw"
  | .variableBegin => "variable_begin"
  | .blockBegin => "block_begin"
  | .integer => "integer"
  | .float => "float"
  | .dot => "dot"
  | .pipe => "pipe"
  | .comma => "comma"
  | .leftBracket => "lbracket"
  | .leftParen => "lparen"
  | .equal => "eq"
  | .notEqual => "ne"
  | .less => "lt"
  | .greater => "gt"
  | .lessOrEqual => "lteq"
  | .greaterOrEqual => "gteq"

/-- How a token is named in a message. -/
def Token.description (t : Token) : String :=
  if t.kind = .eof then "end of template" else Text.quoted t.text

namespace Mistake

/-- A tag as it is written. -/
def tagText (content : String) : String := "\x7b% " ++ content ++ " %\x7d"

/-- What is said about a mistake. -/
def message : Mistake → String
  | .unclosedDelimiter opener closer => "Unclosed '" ++ opener ++ "' (expected '" ++ closer ++ "')"
  | .unterminatedString _ => "Unterminated string literal"
  | .unexpectedCharacter c => "Unexpected character " ++ Text.quoted (String.singleton c)
  | .unclosedVerbatim keyword _ => "Unclosed '" ++ keyword ++ "' block"
  | .expected kind got => "Expected " ++ kind.description ++ ", got " ++ got.description
  | .expectedText what => "Expected " ++ what
  | .expectedValue got =>
    if got = "" then "Expected a value" else "Expected a value, got " ++ Text.quoted got
  | .expectedProperty => "Expected a property name after '.'"
  | .expectedFilter => "Expected filter name after '|'"
  | .malformedArguments filter => "Malformed arguments for filter '" ++ filter ++ "'"
  | .positionalAfterKeyword filter =>
    "Positional argument after keyword argument in filter '" ++ filter ++ "'"
  | .expectedArgument filter => "Expected an argument for filter '" ++ filter ++ "'"
  | .unexpected text => "Unexpected " ++ Text.quoted text
  | .emptyTag => "Empty tag"
  | .expectedTag got => "Expected a tag name, got " ++ Text.quoted got
  | .unknownTag name _ => "Unknown tag '" ++ name ++ "'"
  | .strayBranch keyword => "Unexpected '" ++ keyword ++ "' outside of a block"
  | .strayEnd keyword => "Unexpected '" ++ keyword ++ "' without a matching opening tag"
  | .unclosedBlock name => "Unclosed '" ++ name ++ "' block"
  | .expectedEnd name => "Expected " ++ tagText ("end" ++ name)
  | .mismatchedEnd name keyword _ =>
    "Mismatched end tag: expected 'end" ++ name ++ "', got '" ++ keyword ++ "'"
  | .unexpectedInside name keyword => "Unexpected '" ++ keyword ++ "' inside '" ++ name ++ "' block"
  | .expectedIn => "Expected 'in' after loop variable"
  | .unknownOption got => "Unknown for-loop option " ++ Text.quoted got
  | .outsideLoop keyword => "'" ++ keyword ++ "' outside of a for loop"
  | .expectedQuotedName => "Expected a quoted template name after 'render'"
  | .noForInRender => "'render' does not support 'for'"
  | .doubleOption => "Only one of 'with' or 'for' may be given"
  | .unexpectedOption got keyword =>
    "Unexpected " ++ Text.quoted got ++ " in '" ++ keyword ++ "' tag"

/-- What is suggested. -/
def suggestion? : Mistake → Option String
  | .unclosedDelimiter _ closer => some ("Close the tag with " ++ closer)
  | .unterminatedString quote => some ("Close the string with " ++ String.singleton quote)
  | .unclosedVerbatim keyword ending =>
    some ("Add " ++ tagText ("end" ++ keyword) ++ " after the " ++ ending ++ " text")
  | .malformedArguments _ =>
    some "Separate filter arguments with commas: | filter: a, b, key: c"
  | .unknownTag name known =>
    (Text.Similar.closest? name known).map fun best => "Did you mean '" ++ best ++ "'?"
  | .strayEnd keyword => some ("Remove the stray " ++ tagText keyword)
  | .unclosedBlock name =>
    some ("Add " ++ tagText ("end" ++ name) ++ " to close the '" ++ name ++ "' block")
  | .mismatchedEnd name _ openedAt =>
    some ("The '" ++ name ++ "' block opened at line " ++ toString openedAt ++
      " must be closed with " ++ tagText ("end" ++ name) ++ " first")
  | .expectedIn => some ("Loop syntax: " ++ tagText "for item in collection")
  | .unknownOption _ => some "Valid options: limit: n, offset: n, reversed"
  | .expectedQuotedName =>
    some ("render only accepts a string literal: " ++ tagText "render \"card\"")
  | .noForInRender =>
    some ("Use " ++ tagText "include ... for items" ++ " or loop around the render")
  | .unexpectedOption _ keyword =>
    some (keyword ++ " syntax: " ++ tagText (keyword ++ " \"name\", key: value"))
  | _ => none

/-- The code of a mistake. -/
def code : Mistake → Code
  | .unclosedDelimiter _ _ => .unclosedTag
  | .unterminatedString _ => .unclosedString
  | .unexpectedCharacter _ => .unexpectedCharacter
  | .unclosedVerbatim _ _ | .unclosedBlock _ => .unclosedBlock
  | .expected _ _ | .expectedText _ => .syntaxError
  | .expectedValue _ | .expectedProperty => .invalidExpression
  | .expectedFilter | .malformedArguments _ | .positionalAfterKeyword _ | .expectedArgument _ =>
    .invalidFilter
  | .unknownTag _ _ => .unknownTag
  | .unexpected _ | .emptyTag | .expectedTag _ | .strayBranch _ | .strayEnd _ | .expectedEnd _
  | .mismatchedEnd _ _ _ | .unexpectedInside _ _ | .expectedIn | .unknownOption _ | .outsideLoop _
  | .expectedQuotedName | .noForInRender | .doubleOption | .unexpectedOption _ _ => .unexpectedToken

theorem code_expected (kind : Token.Kind) (got : Token) :
    (expected kind got).code = .syntaxError := rfl

end Mistake

/-- A mistake and the place at which it shows. -/
structure Misplaced where
  mistake : Mistake
  position : Position
  deriving DecidableEq, Repr

end Liquid
