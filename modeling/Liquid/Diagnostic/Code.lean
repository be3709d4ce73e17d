/-!
# Error codes

Every kind of error has a code to search for: `L-`, the stage at which it arises, and a number.

* `ofName?_name`: a code is found by its name.
-/
namespace Liquid

/-- The stages of which a code speaks. -/
inductive Code.Category where
  | lexer
  | parser
  | runtime
  | template
  deriving DecidableEq, Repr

/-- The word for a stage. -/
def Code.Category.word : Code.Category → String
  | .lexer => "lexer"
  | .parser => "parser"
  | .runtime => "runtime"
  | .template => "template"

/-- The codes of errors. -/
inductive Code where
  | unclosedTag
  | unclosedString
  | unexpectedCharacter
  | unexpectedToken
  | unclosedBlock
  | invalidExpression
  | invalidFilter
  | unknownTag
  | undefinedVariable
  | filterError
  | tagError
  | unknownFilter
  | unknownRenderTag
  | includeDepth
  | runtimeError
  | templateNotFound
  | syntaxError
  deriving DecidableEq, Repr

namespace Code

/-- All codes, in order. -/
def all : List Code :=
  [.unclosedTag, .unclosedString, .unexpectedCharacter, .unexpectedToken, .unclosedBlock,
    .invalidExpression, .invalidFilter, .unknownTag, .undefinedVariable, .filterError, .tagError,
    .unknownFilter, .unknownRenderTag, .includeDepth, .runtimeError, .templateNotFound,
    .syntaxError]

/-- The code as it is shown. -/
def text : Code → String
  | .unclosedTag => "L-LEX-001"
  | .unclosedString => "L-LEX-002"
  | .unexpectedCharacter => "L-LEX-003"
  | .unexpectedToken => "L-PAR-001"
  | .unclosedBlock => "L-PAR-002"
  | .invalidExpression => "L-PAR-003"
  | .invalidFilter => "L-PAR-004"
  | .unknownTag => "L-PAR-005"
  | .undefinedVariable => "L-RUN-001"
  | .filterError => "L-RUN-002"
  | .tagError => "L-RUN-003"
  | .unknownFilter => "L-RUN-004"
  | .unknownRenderTag => "L-RUN-005"
  | .includeDepth => "L-RUN-006"
  | .runtimeError => "L-RUN-007"
  | .templateNotFound => "L-TPL-001"
  | .syntaxError => "L-TPL-002"

/-- The name of a code. -/
def name : Code → String
  | .unclosedTag => "UNCLOSED_TAG"
  | .unclosedString => "UNCLOSED_STRING"
  | .unexpectedCharacter => "UNEXPECTED_CHARACTER"
  | .unexpectedToken => "UNEXPECTED_TOKEN"
  | .unclosedBlock => "UNCLOSED_BLOCK"
  | .invalidExpression => "INVALID_EXPRESSION"
  | .invalidFilter => "INVALID_FILTER"
  | .unknownTag => "UNKNOWN_TAG"
  | .undefinedVariable => "UNDEFINED_VARIABLE"
  | .filterError => "FILTER_ERROR"
  | .tagError => "TAG_ERROR"
  | .unknownFilter => "UNKNOWN_FILTER"
  | .unknownRenderTag => "UNKNOWN_RENDER_TAG"
  | .includeDepth => "INCLUDE_DEPTH"
  | .runtimeError => "RUNTIME_ERROR"
  | .templateNotFound => "TEMPLATE_NOT_FOUND"
  | .syntaxError => "SYNTAX_ERROR"

/-- The stage at which an error with the code arises. -/
def category : Code → Category
  | .unclosedTag | .unclosedString | .unexpectedCharacter => .lexer
  | .unexpectedToken | .unclosedBlock | .invalidExpression | .invalidFilter | .unknownTag => .parser
  | .undefinedVariable | .filterError | .tagError | .unknownFilter | .unknownRenderTag
  | .includeDepth | .runtimeError => .runtime
  | .templateNotFound | .syntaxError => .template

/-- The code with a given name. -/
def ofName? (name : String) : Option Code := all.find? fun c => c.name == name

theorem ofName?_name (c : Code) : ofName? c.name = some c := by cases c <;> rfl

end Code

end Liquid
