import Liquid.Registry
import Liquid.View

/-!
# Tags of the host

A tag of the host computes a value from its arguments.  On the way it may look at the rendering,
bind local names, and have its body rendered, as often as it likes and under other names if it
likes.

* `asTag_tag`, `asTag_function`: what is a tag is registered as it is, and a function as a tag.
-/
namespace Liquid

/-- Under which names a body is rendered: those of the tag, those with some more in front, or none
but the globals and some bindings. -/
inductive Surrounding where
  | here
  | inside (frame : Bindings)
  | isolated (data : Bindings)

/-- The steps of a tag: it ends with a value or an error, or goes on after its body is rendered to a
text, after a look at the rendering, or after a name is bound. -/
inductive Program where
  | done (v : Value)
  | fail (e : Error)
  | body (where_ : Surrounding) (next : String → Program)
  | look (next : View → Program)
  | assign (name : String) (v : Value) (next : Program)

namespace Program

/-- A program that ends with a text. -/
def text (s : String) : Program := .done (.text s)

/-- A program that ends with a fault. -/
def fault (f : Fault) : Program := .fail (.ofFault f)

end Program

/-- A tag of the host: whether it has a body, and what it does with its arguments. -/
structure HostTag where
  block : Bool
  run : List Value → Program

/-- What a host may offer as a tag: a tag, a function, or something of another kind. -/
inductive TagOffer where
  | tag (t : HostTag)
  | function (run : List Value → Program)
  | other (kindName : String)

/-- The tag that is offered under a name.  A function is a tag without a body. -/
def TagOffer.asTag (name : String) : TagOffer → Except Fault HostTag
  | .tag t => pure t
  | .function run => pure ⟨false, run⟩
  | .other kind =>
    throw
      { kind := .wrongType
        note := some ("Tag '" ++ name ++ "' must be callable, got " ++ kind) }

theorem TagOffer.asTag_tag (name : String) (t : HostTag) : (tag t).asTag name = .ok t := rfl

theorem TagOffer.asTag_function (name : String) (run : List Value → Program) :
    (function run).asTag name = .ok ⟨false, run⟩ := rfl

end Liquid
