import Liquid.Diagnostic.Code
import Liquid.Diagnostic.Snippet
import Liquid.Text.Search
import Liquid.Text.Similar

/-!
# Errors

What can go wrong from reading a template to writing its output, what is said about it, and what
caused it.  An error is shown in two layouts: a full one, and a compact one that begins with the
code.

* `Failure.compact_plain`: an error without a code shows its text alone.
-/
namespace Liquid

/-- A text that counts as missing when it is empty. -/
def nonEmpty? (s : Option String) : Option String := s.filter fun t => t != ""

/-- Something that is wrong with the text of a template. -/
structure SyntaxError where
  parsing : Bool
  text : String
  code : Code
  line : Option Int
  column : Option Int
  name : Option String
  filename : Option String
  source : Option String
  suggestion : Option String

namespace SyntaxError

/-- The line number, if it is one. -/
def line? (e : SyntaxError) : Option Int := e.line.filter fun n => n != 0

/-- The line of the source with the mistake. -/
def snippet? (e : SyntaxError) : Option String := do
  let source ← nonEmpty? e.source
  let line ← e.line?
  if 0 < line then (sourceLines source)[(line - 1).toNat]? else none

/-- Where the mistake is. -/
def location (e : SyntaxError) : String :=
  let place := ((nonEmpty? e.filename).or (nonEmpty? e.name)).getD "<template>"
  match e.line? with
  | none => place
  | some line =>
    place ++ ":" ++ toString line ++ (e.column.map fun c => ":" ++ toString c).getD ""

/-- The error in full. -/
def message (e : SyntaxError) : String :=
  (if e.parsing then "Parse" else "Syntax") ++ " Error: " ++ e.text ++ "\n  --> " ++ e.location ++
    (match e.snippet? with
      | none => ""
      | some line =>
        "\n   |\n" ++ Paint.column (e.line.getD 0) ++ " | " ++ line ++
          (e.column.map fun c => "\n   | " ++ Snippet.blanks c ++ "^").getD "") ++
    ((nonEmpty? e.suggestion).map fun s => "\n\nSuggestion: " ++ s).getD ""

/-- The error in the compact layout. -/
def compact (colour : Bool) (e : SyntaxError) : String :=
  let snippet := do
    let source ← nonEmpty? e.source
    let line ← e.line?
    return (Snippet.of source line Snippet.usualContext e.column).text colour
  String.intercalate "\n"
    ([Paint.header colour e.code.text e.text, "  --> " ++ Paint.location colour e.location] ++
      snippet.toList ++
      ((nonEmpty? e.suggestion).map fun s => "  " ++ Paint.hint colour "Hint:" ++ " " ++ s).toList)

end SyntaxError

/-- What a failed rendering says: a text, or that a name means nothing, perhaps with a name that was
meant instead. -/
inductive Headline where
  | plain (text : String)
  | undefined (name : String) (meant : Option String)

/-- The text of a headline. -/
def Headline.text (colour : Bool) : Headline → String
  | .plain text => text
  | .undefined name meant =>
    "Undefined variable '" ++ name ++ "'" ++
      (meant.map fun m => ". Did you mean '" ++ Paint.suggestion colour m ++ "'?").getD ""

/-- A failed rendering: what it says and where it happened. -/
structure RenderError where
  headline : Headline
  code : Code
  template : Option String := none
  line : Option Int := none
  suggestion : Option String := none
  snippet : Option Snippet := none
  stack : TemplateStack := []

namespace RenderError

/-- Where it happened, if that is known. -/
def location? (e : RenderError) : Option String :=
  let line := e.line.filter fun n => n != 0
  match nonEmpty? e.template, line with
  | none, none => none
  | template, line =>
    some (template.getD "<template>" ++ (line.map fun n => ":" ++ toString n).getD "")

/-- The name of a variable that means nothing, with the closest of the names that do. -/
def undefined (name : String) (template : Option String) (line : Option Int)
    (known : List String) : RenderError where
  headline := .undefined name (Text.Similar.closest? name known)
  code := .undefinedVariable
  template
  line
  suggestion :=
    some ("Use \x7b\x7b " ++ name ++ " | default: '' \x7d\x7d for optional variables")

/-- The parts between headline and suggestion. -/
def middle (colour : Bool) (e : RenderError) : List String :=
  (e.location?.map fun l => "  Location: " ++ Paint.location colour l).toList ++
    (e.snippet.map (Snippet.text colour)).toList ++
    (if e.stack.isEmpty then [] else ["", TemplateStack.text colour e.stack])

/-- The error in full. -/
def message (colour : Bool) (e : RenderError) : String :=
  String.intercalate "\n"
    ((("Render Error: " ++ e.headline.text colour) :: e.middle colour) ++
      ((nonEmpty? e.suggestion).map fun s =>
        "\n  " ++ Paint.hint colour "Suggestion:" ++ " " ++ s).toList)

/-- The error in the compact layout. -/
def compact (colour : Bool) (cause : Option String) (e : RenderError) : String :=
  String.intercalate "\n"
    ((Paint.header colour e.code.text (e.headline.text colour) :: e.middle colour) ++
      (cause.map fun c => "  Caused by: " ++ c).toList ++
      ((nonEmpty? e.suggestion).map fun s => "  " ++ Paint.hint colour "Hint:" ++ " " ++ s).toList)

end RenderError

/-- The kinds of failure: of the text of a template, of a rendering, of a filter, of a tag, of
finding a template, of the library in general, and faults outside its rules. -/
inductive Failure where
  | unreadable (e : SyntaxError)
  | render (e : RenderError)
  | filter (text : String) (filter : Option String)
  | tag (text : String) (tag : Option String)
  | notFound (text : String) (tag name : Option String)
  | plain (text : String)
  | fault (f : Fault)

/-- A failure and the error that caused it. -/
structure Error where
  failure : Failure
  cause : Option Error := none

namespace Failure

/-- The name of the kind of failure. -/
def kindName : Failure → String
  | .unreadable e => if e.parsing then "ParseError" else "TemplateSyntaxError"
  | .render e =>
    match e.headline with
    | .plain _ => "RenderError"
    | .undefined _ _ => "UndefinedError"
  | .filter _ _ => "FilterError"
  | .tag _ _ => "TagError"
  | .notFound _ _ _ => "TemplateNotFoundError"
  | .plain _ => "TemplateError"
  | .fault f => f.kind.name

/-- The code of a failure. -/
def code? : Failure → Option Code
  | .unreadable e => some e.code
  | .render e => some e.code
  | .filter _ _ => some .filterError
  | .tag _ _ => some .tagError
  | .notFound _ _ _ => some .templateNotFound
  | .plain _ => none
  | .fault _ => none

/-- A text with the name of the filter or tag it is about. -/
def within (kind text : String) (name : Option String) : String :=
  match nonEmpty? name with
  | some n => text ++ " (in " ++ kind ++ " '" ++ n ++ "')"
  | none => text

/-- What is said about a failure. -/
def message (colour : Bool) : Failure → String
  | .unreadable e => e.message
  | .render e => e.message colour
  | .filter text name => within "filter" text name
  | .tag text name => within "tag" text name
  | .notFound text name _ => within "tag" text name
  | .plain text => text
  | .fault f => f.note.getD ""

/-- The message behind the code, unless it holds the code already. -/
def coded (colour : Bool) (f : Failure) : String :=
  let message := f.message colour
  match f.code? with
  | none => message
  | some code =>
    if Text.occursIn code.text.toList message.toList then message else code.text ++ ": " ++ message

/-- The failure in the compact layout. -/
def compact (colour : Bool) (cause : Option String) (f : Failure) : String :=
  match f with
  | .unreadable e => e.compact colour
  | .render e => e.compact colour cause
  | f => f.coded colour

theorem compact_plain (colour : Bool) (cause : Option String) (text : String) :
    (plain text).compact colour cause = text := by
  simp [compact, coded, message, code?]

end Failure

namespace Error

/-- A fault as an error. -/
def ofFault (f : Fault) : Error := { failure := .fault f }

/-- A failure without a cause. -/
def of (f : Failure) : Error := { failure := f }

/-- What is said about an error. -/
def message (colour : Bool) (e : Error) : String := e.failure.message colour

/-- The error in the compact layout. -/
def compact (colour : Bool) (e : Error) : String :=
  e.failure.compact colour (e.cause.map fun c => c.failure.kindName)

/-- The first of the causes. -/
def root (e : Error) : Failure :=
  match e with
  | ⟨failure, none⟩ => failure
  | ⟨_, some cause⟩ => cause.root

end Error

end Liquid
