import Liquid.Node.Basic
import Liquid.Render.Basic

/-!
# Rendering nodes

What each node of a template does.  A template that includes another hands over to the renderer of
the level below; on the lowest level nothing can be included, so every rendering ends.

* `renderNodes_nil`, `renderNodes_cons`: nodes are rendered in order, each at its line.
* `below_zero`: at the lowest level no template can be entered.
-/
namespace Liquid

/-- How nodes are rendered on some level. -/
abbrev Renderer := Setting → List Node → Run Unit

namespace Run

/-- The part of some items from an offset on, up to a limit, perhaps backwards. -/
def part (offset limit : Option Int) (reversed : Bool) (items : List Value) : List Value :=
  let rest := items.drop (offset.getD 0).toNat
  let taken := match limit with
    | some n => rest.take n.toNat
    | none => rest
  if reversed then taken.reverse else taken

/-- The whole number that an expression stands for, if there is one. -/
def evalCount (s : Setting) : Option Expr → Run (Option Int)
  | none => pure none
  | some e => do return some ((← eval s e).toInt 0)

/-- The items that a value gives to go through. -/
def evalItems (s : Setting) (e : Expr) : Run (List Value) := do
  ofExcept (orFault (← eval s e).toList?)

/-- The items that a loop visits. -/
def loopItems (s : Setting) (head : LoopHead) : Run (List Value) := do
  let items ← evalItems s head.items
  let offset ← evalCount s head.offset
  let limit ← evalCount s head.limit
  return part offset limit head.reversed items

/-- The loop that the name for it means. -/
def enclosingLoop (view : View) : Option Loop :=
  match view.lookup "forloop" with
  | .loop l => some l
  | _ => none

/-- Whether one of the values is equal to the subject. -/
def matchesAny (s : Setting) (subject : Value) : List Expr → Run Bool
  | [] => pure false
  | e :: rest => do
    let v ← eval s e
    if ← ofExcept (orFault (subject.equals v)) then return true else matchesAny s subject rest

/-- Takes the template that a tag asks for from the shelf, or loads it. -/
def fetch (s : Setting) (tag name : String) : Run Loaded := do
  let st ← get
  let (found, shelf) := s.engine.fetch name st.shelf
  set { st with shelf }
  ofExcept (found.mapError (Error.askedBy tag))

/-- The template that a tag names, and the renderer for it.  Where no more templates can be entered,
nothing is loaded. -/
def findTemplate (deeper : Option Renderer) (s : Setting) (tag : String) (e : Expr) :
    Run (Renderer × Loaded) := do
  let name := (← eval s e).toText
  match deeper with
  | none => fail (.of (.render ((s.place.getD .nowhere).tooDeep (← get).line name)))
  | some renderer => return (renderer, ← fetch s tag name)

/-- The name that the value given to a template has there: the last part of the template's name, up
to the first dot. -/
def usualAlias (name : Option String) : String :=
  match nonEmpty? name with
  | none => "include"
  | some name =>
    String.ofList
      ((((Text.split ['/'] name.toList).getLast?).getD []).takeWhile (· != '.'))

/-- The place of a template that is entered from a line; the first one that is entered where no
place is known has no name. -/
def placeOf (s : Setting) (line : Int) (t : Loaded) : Place :=
  match s.place with
  | some p => p.child line t.name (some t.source)
  | none => { template := t.name, source := some t.source, limit := Place.usualLimit }

/-- Renders a template within another. -/
def renderTemplate (renderer : Renderer) (s : Setting) (t : Loaded) : Run Unit := do
  let st ← get
  let place := some (placeOf s st.line t)
  enter place (renderer { s with place } t.nodes)

/-- The bindings that are written at a tag. -/
def evalBindings (s : Setting) (bindings : List (String × Expr)) : Run Bindings := do
  ofExcept (Expr.evalNamed (← look s) s.around.strict bindings [])

/-- The name of a template inside which a value is given to it. -/
def aliasIn (what : Inclusion) (t : Loaded) : String := what.called.getD (usualAlias t.name)

/-- The bindings of a tag with the value that is given to the template. -/
def evalGiven (s : Setting) (what : Inclusion) (t : Loaded) : Run Bindings := do
  let bindings ← evalBindings s what.bindings
  match what.given with
  | some e => return bindings.set (aliasIn what t) (← eval s e)
  | none => return bindings

/-- Begins the loop through the items of a tag, and binds it beside what is written there. -/
def beginItems (s : Setting) (what : Inclusion) (e : Expr) : Run (Bindings × List Value × Loop) := do
  let bindings ← evalBindings s what.bindings
  let items ← evalItems s e
  let l ← beginLoop items.length none
  return (bindings.set "forloop" (.loop l), items, l)

/-- Renders a template among the names of the template around it, once or for each of some items. -/
def includeTemplate (deeper : Option Renderer) (s : Setting) (what : Inclusion)
    (each : Option Expr) : Run Unit := do
  let (renderer, t) ← findTemplate deeper s "include" what.template
  match each with
  | some e =>
    let (bindings, items, l) ← beginItems s what e
    forAll (fun position v => do
      moveTo l position
      renderTemplate renderer (s.push (bindings.set (aliasIn what t) v)) t) 0 items
  | none =>
    let bindings ← evalGiven s what t
    renderTemplate renderer (s.push bindings) t

/-- Renders a template by itself. -/
def renderAlone (deeper : Option Renderer) (s : Setting) (what : Inclusion) : Run Unit := do
  let (renderer, t) ← findTemplate deeper s "render" what.template
  let bindings ← evalGiven s what t
  let inner := s.within (.isolated bindings)
  isolate inner.around.loopBound (renderTemplate renderer inner t)

/-- Runs the steps of a tag.  After a signal in the body, the body is rendered no more. -/
def program (s : Setting) (body : Surrounding → Run (String × Option Signal)) :
    Program → Option Signal → Run (Value × Option Signal)
  | .done v, pending => return (v, pending)
  | .fail e, _ => fail e
  | .body _ next, some signal => program s body (next "") (some signal)
  | .body where_ next, none => do
    let (text, pending) ← body where_
    program s body (next text) pending
  | .look next, pending => do program s body (next (← look s)) pending
  | .assign name v next, pending => do
    assign name v
    program s body next pending

/-- Fails because no tag of the host has this name. -/
def unknownTag (s : Setting) (name : String) : Run Unit := do
  fail (.of (.render (.at s.place (← get).line ("Unknown tag '" ++ name ++ "'")
    .unknownRenderTag (some "Register it with Environment.add_tag() before rendering"))))

/-- The values of the arguments of a tag. -/
def evalArguments (s : Setting) (arguments : List Expr) : Run (List Value) := do
  ofExcept (Expr.evalAll (← look s) s.around.strict arguments)

/-- Renders a tag of the host: what its steps give is written, and then a signal in the body goes on
to the loop around. -/
def hostTag (s : Setting) (name : String) (arguments : List Expr)
    (body : Surrounding → Run (String × Option Signal)) : Run Unit := do
  match s.engine.tags.get? name with
  | none => unknownTag s name
  | some tag =>
    let values ← evalArguments s arguments
    let (v, pending) ← onError (Error.withinTag name) (program s body (tag.run values) none)
    write v.toText
    match pending with
    | some signal => throw (.signal signal)
    | none => pure ()

/-- Runs among other names; what is bound in isolation is forgotten. -/
def inSurrounding {α : Type} (s : Setting) (where_ : Surrounding) (run : Setting → Run α) : Run α :=
  let inner := s.within where_
  match where_ with
  | .isolated _ => isolate inner.around.loopBound (run inner)
  | _ => run inner

end Run

open Run

mutual

/-- Renders a node. -/
def renderNode (deeper : Option Renderer) (s : Setting) : Node → Run Unit
  | .text _ text | .raw _ text => write text
  | .comment _ _ => pure ()
  | .output _ none _ _ _ => pure ()
  | .output _ (some e) filters _ _ => do write (← evalFiltered s e filters).toText
  | .conditional _ negated test body branches otherwise => do
    if (← eval s test).isTruthy != negated then renderNodes deeper s body
    else renderBranches deeper s (renderNodes deeper s otherwise) branches
  | .loop _ head body otherwise => do
    match ← loopItems s head with
    | [] => renderNodes deeper s otherwise
    | items =>
      let l ← beginLoop items.length (enclosingLoop (← look s))
      visitAll (fun position v => do
        moveTo l position
        let frame := Bindings.set head.target v [("forloop", .loop l)]
        renderNodes deeper (s.push frame) body) 0 items
  | .choice _ subject whens otherwise => do
    renderWhens deeper s (← eval s subject) (renderNodes deeper s otherwise) whens
  | .signal _ signal => throw (.signal signal)
  | .assign _ name e filters => do assign name (← evalFiltered s e filters)
  | .capture _ name body => do assign name (.text (← captured (renderNodes deeper s body)))
  | .include _ what each => includeTemplate deeper s what each
  | .render _ what => renderAlone deeper s what
  | .tag _ name arguments body _ =>
    hostTag s name arguments fun where_ =>
      inSurrounding s where_ fun inner => capturedToSignal (renderNodes deeper inner body)

/-- Renders nodes in order. -/
def renderNodes (deeper : Option Renderer) (s : Setting) : List Node → Run Unit
  | [] => pure ()
  | n :: rest => do
    atLine n.pos.line
    renderNode deeper s n
    renderNodes deeper s rest

/-- Renders the first branch whose test holds. -/
def renderBranches (deeper : Option Renderer) (s : Setting) (otherwise : Run Unit) :
    List (Branch Node) → Run Unit
  | [] => otherwise
  | ⟨test, body⟩ :: rest => do
    if (← eval s test).isTruthy then renderNodes deeper s body
    else renderBranches deeper s otherwise rest

/-- Renders the first part that has a value equal to the subject. -/
def renderWhens (deeper : Option Renderer) (s : Setting) (subject : Value) (otherwise : Run Unit) :
    List (When Node) → Run Unit
  | [] => otherwise
  | ⟨_, values, body⟩ :: rest => do
    if ← matchesAny s subject values then renderNodes deeper s body
    else renderWhens deeper s subject otherwise rest

end

/-- The renderer for templates that are entered where so many more may be nested. -/
def below : Nat → Option Renderer
  | 0 => none
  | n + 1 => some (renderNodes (below n))

theorem below_zero : below 0 = none := rfl

theorem Run.fetch_apply (s : Setting) (tag name : String) (st : State) :
    fetch s tag name st =
      (((s.engine.fetch name st.shelf).1.mapError (Error.askedBy tag)).mapError Stop.error,
        { st with shelf := (s.engine.fetch name st.shelf).2 }) :=
  ofExcept_apply _ _

theorem renderNodes_nil (deeper : Option Renderer) (s : Setting) :
    renderNodes deeper s [] = pure () := by
  rw [renderNodes]

theorem renderNodes_cons (deeper : Option Renderer) (s : Setting) (n : Node) (rest : List Node) :
    renderNodes deeper s (n :: rest) =
      (do atLine n.pos.line
          renderNode deeper s n
          renderNodes deeper s rest) := by
  rw [renderNodes]

end Liquid
