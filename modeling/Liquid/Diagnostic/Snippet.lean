import Liquid.Diagnostic.Paint
import Liquid.Text.Lines

/-!
# Snippets

The lines of a source around an error, with a caret under the column if it is known, and the chain
of templates that led to the error.

* `Snippet.of_lines`: a snippet shows lines of the source under their numbers.
-/
namespace Liquid

/-- Some numbered lines of a source, one of which has the error. -/
structure Snippet where
  lines : List (Int × String)
  errorLine : Int
  column : Option Int
  deriving DecidableEq, Repr

/-- The lines of a text. -/
def sourceLines (source : String) : List String := (Text.splitLines source.toList).map String.ofList

namespace Snippet

/-- The lines of a source around a line, so many before and after it. -/
def of (source : String) (errorLine context : Int) (column : Option Int) : Snippet :=
  let all := sourceLines source
  let start := max 0 (errorLine - 1 - context)
  let stop := min (all.length : Int) (errorLine + context)
  let numbers := (List.range (stop - start).toNat).map fun (i : Nat) => start + i
  ⟨numbers.filterMap fun i => (all[i.toNat]?).map fun line => (i + 1, line), errorLine, column⟩

/-- The context that is shown unless more is asked for. -/
def usualContext : Int := 2

theorem of_lines {source : String} {errorLine context : Int} {column : Option Int} {n : Int}
    {line : String} (h : (n, line) ∈ (of source errorLine context column).lines) :
    (sourceLines source)[(n - 1).toNat]? = some line := by
  simp only [of, List.mem_filterMap, Option.map_eq_some_iff, Prod.mk.injEq] at h
  obtain ⟨i, -, l, hl, rfl, rfl⟩ := h
  simpa using hl

/-- So many blanks, none for a negative number. -/
def blanks (n : Int) : String := String.ofList (List.replicate n.toNat ' ')

/-- The snippet as it is shown. -/
def text (colour : Bool) (s : Snippet) : String :=
  let margin := Paint.dim colour "   |"
  let lineText : Int × String → List String := fun (number, content) =>
    Paint.sourceLine colour number content (number == s.errorLine) ::
      match s.column with
      | some column =>
        if number = s.errorLine then
          [margin ++ " " ++ Paint.paint colour [.brightRed] (blanks column ++ "^")]
        else []
      | none => []
  String.intercalate "\n" (margin :: s.lines.flatMap lineText ++ [margin])

end Snippet

/-- The templates that led to an error, outermost first, each with the line at which it goes on to
the next. -/
abbrev TemplateStack := List (String × Int)

/-- The chain of templates as it is shown. -/
def TemplateStack.text (colour : Bool) (stack : TemplateStack) : String :=
  if stack.isEmpty then ""
  else
    String.intercalate "\n" (Paint.dim colour "Template stack:" ::
      stack.map fun (name, line) => "  • " ++ Paint.location colour (name ++ ":" ++ toString line))

end Liquid
