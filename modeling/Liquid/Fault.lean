/-!
# Faults

Failures that no rule of the template language describes: a number that is too large, a value of
the wrong kind, a host function that breaks.  A fault is known by its kind and perhaps a note.

* `text_of_note_eq_none`: a fault without a note reads as its kind.
-/
namespace Liquid

/-- The kinds of fault. -/
inductive Fault.Kind where
  | overflow
  | wrongType
  | wrongValue
  | missingKey
  | missingIndex
  | failedLookup
  | divisionByZero
  | invalidOperation
  | undecodable
  | missingAttribute
  | system
  | strayBreak
  | strayContinue
  deriving DecidableEq, Repr

/-- The name of a kind of fault. -/
def Fault.Kind.name : Fault.Kind → String
  | .overflow => "OverflowError"
  | .wrongType => "TypeError"
  | .wrongValue => "ValueError"
  | .missingKey => "KeyError"
  | .missingIndex => "IndexError"
  | .failedLookup => "LookupError"
  | .divisionByZero => "ZeroDivisionError"
  | .invalidOperation => "InvalidOperation"
  | .undecodable => "UnicodeDecodeError"
  | .missingAttribute => "AttributeError"
  | .system => "OSError"
  | .strayBreak => "BreakLoop"
  | .strayContinue => "ContinueLoop"

/-- A failure outside the rules of the language. -/
structure Fault where
  kind : Fault.Kind
  note : Option String := none
  deriving DecidableEq, Repr

namespace Fault

/-- A fault as people read it. -/
def text (f : Fault) : String :=
  match f.note with
  | none => f.kind.name
  | some note => f.kind.name ++ ": " ++ note

theorem text_of_note_eq_none {f : Fault} (h : f.note = none) : f.text = f.kind.name := by
  simp [text, h]

/-- A number or a count beyond its bounds. -/
def overflow : Fault := { kind := .overflow }

/-- A decimal that takes more digits than there are to work with. -/
def tooManyDigits : Fault := { kind := .invalidOperation }

/-- A value or an argument list of the wrong kind. -/
def wrongType : Fault := { kind := .wrongType }

end Fault

end Liquid
