import Liquid.Diagnostic.Error

/-!
# Places of rendering

Which template is being rendered, how deep it is nested in others, and through which of them the
rendering came there.  Errors are given their place here.

* `check_eq_ok_iff`: one more template is entered exactly as long as the limit is not reached.
* `depth_child`: a template is one level deeper than the one that renders it.
* `positioned_render`: an error that has its place keeps it.
-/
namespace Liquid

/-- The template that is being rendered, its depth with its limit, and the templates around it. -/
structure Place where
  template : Option String := none
  filename : Option String := none
  source : Option String := none
  depth : Nat := 0
  limit : Int
  stack : TemplateStack := []
  deriving DecidableEq, Repr

namespace Place

/-- The limit of depth unless another is asked for. -/
def usualLimit : Int := 50

/-- The place that stands for none. -/
def nowhere : Place := { limit := usualLimit }

/-- The stack inside a template that is rendered from a line of this one.  A template without a name
does not show. -/
def stackAt (p : Place) (line : Int) : TemplateStack :=
  match nonEmpty? p.template with
  | some name => if 0 < line then p.stack ++ [(name, line)] else p.stack
  | none => p.stack

/-- The place of a template that is rendered from a line of this one. -/
def child (p : Place) (line : Int) (name source : Option String) : Place where
  template := (nonEmpty? name).or p.template
  source
  depth := p.depth + 1
  limit := p.limit
  stack := p.stackAt line

theorem depth_child (p : Place) (line : Int) (name source : Option String) :
    (p.child line name source).depth = p.depth + 1 ∧ (p.child line name source).limit = p.limit :=
  ⟨rfl, rfl⟩

/-- A line number, of which zero is none. -/
def lineNumber? (line : Int) : Option Int := if line = 0 then none else some line

/-- The source around a line. -/
def snippet? (p : Place) (line : Int) : Option Snippet := do
  let source ← nonEmpty? p.source
  let number ← lineNumber? line
  return .of source number Snippet.usualContext none

/-- The failure to enter one more template. -/
def tooDeep (p : Place) (line : Int) (name : String) : RenderError where
  headline := .plain ("Maximum include depth exceeded (" ++ toString p.limit ++
    ") when including '" ++ name ++ "'")
  code := .includeDepth
  template := p.template
  line := lineNumber? line
  suggestion := some "Check for circular includes: A → B → A"
  stack := p.stack

/-- Whether one more template may be entered. -/
def check (p : Place) (line : Int) (name : String) : Except RenderError Unit :=
  if p.limit ≤ p.depth then throw (p.tooDeep line name) else pure ()

theorem check_eq_ok_iff (p : Place) (line : Int) (name : String) :
    p.check line name = .ok () ↔ (p.depth : Int) < p.limit := by
  unfold check
  split
  · rename_i h
    simp [throw, throwThe, MonadExceptOf.throw, h]
  · rename_i h
    simp only [pure, Except.pure, true_iff]
    omega

end Place

/-- An error about a line of the template at a place, if there is one. -/
def RenderError.at (place : Option Place) (line : Int) (text : String) (code : Code)
    (suggestion : Option String) : RenderError :=
  match place with
  | none => { headline := .plain text, code, suggestion }
  | some p =>
    { headline := .plain text
      code
      template := p.template
      line := Place.lineNumber? line
      suggestion
      snippet := p.snippet? line
      stack := p.stack }

namespace Error

/-- What a failed rendering says of an error. -/
def headline (e : Error) : String :=
  match e.failure with
  | .fault f => f.text
  | failure => failure.message false

/-- An error of rendering as it is, and any other error as the cause of one. -/
def positioned (place : Option Place) (line : Int) (e : Error) : Error :=
  match e.failure with
  | .render _ => e
  | failure =>
    ⟨.render (.at place line e.headline (failure.code?.getD .runtimeError) none), some e⟩

theorem positioned_render (place : Option Place) (line : Int) (r : RenderError)
    (cause : Option Error) :
    positioned place line ⟨.render r, cause⟩ = ⟨.render r, cause⟩ := rfl

/-- An error of a tag names it, and a fault within a tag is an error of the tag. -/
def withinTag (tag : String) (e : Error) : Error :=
  match e.failure with
  | .tag text none => { e with failure := .tag text (some tag) }
  | .notFound text none name => { e with failure := .notFound text (some tag) name }
  | .fault f => ⟨.tag f.text (some tag), some e⟩
  | _ => e

/-- A template that is not found names the tag that asked for it. -/
def askedBy (tag : String) (e : Error) : Error :=
  match e.failure with
  | .notFound text none name => { e with failure := .notFound text (some tag) name }
  | _ => e

/-- An error of a filter names it, and a fault within a filter is an error of the filter. -/
def withinFilter (filter : String) (e : Error) : Error :=
  match e.failure with
  | .filter text none => { e with failure := .filter text (some filter) }
  | .fault f => ⟨.filter f.text (some filter), some e⟩
  | _ => e

end Error

end Liquid
