import Liquid.Environment
import Mathlib.Logic.Relation

/-!
# Rendering step by step

`renderNodes` says what rendering gives.  The machine here says what happens on the way: it does one
thing at a time, and between two steps it shows the names that are bound, the open frames, the place
and what waits for the present body to end.  Nothing is handed down and nothing is put back by
itself: a block opens its frame and closes it, a loop binds its names in its frame anew for each
item, a template sets the place and the place around it is put back, and the depth is checked where
a template is named.

**Stack.** `Frame` is what waits: the nodes behind in a body, the visits of a loop to come, the end
of a block, of an isolation or of a template, a text to be captured, a tag of the host.

* `steps_perform`: what renders no body is done in one step.
* `active`: the templates that have been entered and not left are the `template` frames.
-/
namespace Liquid

namespace Surroundings

/-- Binds a name in the innermost frame. -/
def bind (s : Surroundings) (name : String) (value : Value) : Surroundings :=
  match s.frames with
  | [] => s
  | frame :: outer => { s with frames := frame.set name value :: outer }

/-- Closes the innermost frame. -/
def pop (s : Surroundings) : Surroundings := { s with frames := s.frames.tail }

theorem pop_push (s : Surroundings) (frame : Bindings) : (s.push frame).pop = s := rfl

theorem bind_push (s : Surroundings) (frame : Bindings) (name : String) (value : Value) :
    (s.push frame).bind name value = s.push (frame.set name value) := rfl

end Surroundings

namespace Run

/-- The nodes of the first branch whose test holds, or those behind all branches. -/
def chooseBranch (s : Setting) (otherwise : List Node) : List (Branch Node) → Run (List Node)
  | [] => pure otherwise
  | ⟨test, body⟩ :: rest => do
    if (← eval s test).isTruthy then return body else chooseBranch s otherwise rest

/-- The nodes of the first part that has a value equal to the subject, or those behind all parts. -/
def chooseWhen (s : Setting) (subject : Value) (otherwise : List Node) :
    List (When Node) → Run (List Node)
  | [] => pure otherwise
  | ⟨_, values, body⟩ :: rest => do
    if ← matchesAny s subject values then return body else chooseWhen s subject otherwise rest

/-- The nodes of a conditional that are rendered. -/
def chooseBody (s : Setting) (negated : Bool) (test : Expr) (body : List Node)
    (branches : List (Branch Node)) (otherwise : List Node) : Run (List Node) := do
  if (← eval s test).isTruthy != negated then return body else chooseBranch s otherwise branches

/-- The check that one more template may be nested; where there is no place, there is no limit. -/
def checkDepth (s : Setting) (name : String) : Run Unit := do
  let st ← get
  match s.place with
  | some p => ofExcept ((p.check st.line name).mapError fun e => .of (.render e))
  | none => pure ()

/-- The template that a tag names.  It is loaded only if it may be nested. -/
def find (s : Setting) (tag : String) (e : Expr) : Run Loaded := do
  let name := (← eval s e).toText
  checkDepth s name
  fetch s tag name

end Run

/-- What waits for a body to end. -/
inductive Frame where
  | behind (nodes : List Node)
  | block
  | isolation (around : Surroundings) (locals : Bindings) (positions : Positions)
  | template (place : Option Place) (line : Int)
  | visits (l : Loop) (target : String) (body : List Node) (position : Int) (items : List Value)
  | items (l : Loop) (called : String) (t : Loaded) (position : Int) (items : List Value)
  | captured (name output : String)
  | host (tag : String) (body : List Node) (next : String → Program) (output : String)

/-- What is done at present. -/
inductive Control where
  | nodes (nodes : List Node)
  | node (n : Node)
  | template (t : Loaded)
  | program (tag : String) (body : List Node) (p : Program) (pending : Option Signal)
  | ended (how : Except Stop Unit)

/-- A rendering between two steps. -/
structure Machine where
  control : Control
  stack : List Frame
  around : Surroundings
  place : Option Place
  state : State

namespace Machine

/-- What the renderer is told at this point. -/
def setting (engine : Engine) (m : Machine) : Setting := ⟨engine, m.around, m.place⟩

/-- The names that are bound at this point. -/
def scope (m : Machine) : Scope := { toSurroundings := m.around, locals := m.state.locals }

/-- What is seen at this point. -/
def view (m : Machine) : View := ⟨m.scope, m.state.positions, m.place, m.state.line⟩

/-- The machine that goes on with some nodes. -/
def goOn (m : Machine) (nodes : List Node) : Machine := { m with control := .nodes nodes }

/-- The machine whose present work has ended. -/
def endWith (m : Machine) (how : Except Stop Unit) : Machine := { m with control := .ended how }

/-- The machine whose present work has ended normally. -/
def done (m : Machine) : Machine := m.endWith (.ok ())

/-- The machine with one more thing that waits. -/
def wait (m : Machine) (f : Frame) : Machine := { m with stack := f :: m.stack }

/-- Does something that renders no body, and goes on with what it gives. -/
def perform {α : Type} (m : Machine) (run : Run α) (next : Machine → α → Machine) : Machine :=
  match run m.state with
  | (.ok x, st) => next { m with state := st } x
  | (.error stop, st) => { m with state := st }.endWith (.error stop)

/-- Opens a frame. -/
def openBlock (m : Machine) (frame : Bindings) : Machine :=
  { m with around := m.around.push frame }.wait .block

/-- Begins an isolation. -/
def isolate (m : Machine) (data : Bindings) : Machine :=
  let around := m.around.isolated data
  { m.wait (.isolation m.around m.state.locals m.state.positions) with
    around
    state := { m.state with locals := [], positions := .outside around.loopBound } }

/-- Begins to collect a text apart from the output. -/
def collect (m : Machine) (f : String → Frame) : Machine :=
  { m.wait (f m.state.output) with state := { m.state with output := "" } }

/-- Begins a node. -/
def node (engine : Engine) (m : Machine) (n : Node) : Machine :=
  let s := m.setting engine
  match n with
  | .text _ text | .raw _ text => m.perform (Run.write text) fun m () => m.done
  | .comment _ _ => m.done
  | .output _ none _ _ _ => m.done
  | .output _ (some e) filters _ _ =>
    m.perform (do Run.write (← Run.evalFiltered s e filters).toText) fun m () => m.done
  | .conditional _ negated test body branches otherwise =>
    m.perform (Run.chooseBody s negated test body branches otherwise) goOn
  | .loop _ head body otherwise =>
    m.perform (Run.loopItems s head) fun m items =>
      match items with
      | [] => m.goOn otherwise
      | items =>
        m.perform (do Run.beginLoop items.length (Run.enclosingLoop (← Run.look s))) fun m l =>
          ((m.openBlock [("forloop", .loop l)]).wait (.visits l head.target body 0 items)).done
  | .choice _ subject whens otherwise =>
    m.perform (do Run.chooseWhen s (← Run.eval s subject) otherwise whens) goOn
  | .signal _ signal => m.endWith (.error (.signal signal))
  | .assign _ name e filters =>
    m.perform (do Run.assign name (← Run.evalFiltered s e filters)) fun m () => m.done
  | .capture _ name body => (m.collect (.captured name)).goOn body
  | .include _ what each =>
    m.perform (Run.find s "include" what.template) fun m t =>
      match each with
      | some e =>
        m.perform (Run.beginItems s what e) fun m (bindings, items, l) =>
          ((m.openBlock bindings).wait (.items l (Run.aliasIn what t) t 0 items)).done
      | none =>
        m.perform (Run.evalGiven s what t) fun m bindings =>
          { m.openBlock bindings with control := .template t }
  | .render _ what =>
    m.perform (Run.find s "render" what.template) fun m t =>
      m.perform (Run.evalGiven s what t) fun m bindings =>
        { m.isolate bindings with control := .template t }
  | .tag _ name arguments body _ =>
    match engine.tags.get? name with
    | none => m.perform (Run.unknownTag s name) fun m () => m.done
    | some tag =>
      m.perform (Run.evalArguments s arguments) fun m values =>
        { m with control := .program name body (tag.run values) none }

/-- Enters a template. -/
def enter (engine : Engine) (m : Machine) (t : Loaded) : Machine :=
  { m.wait (.template m.place m.state.line) with
    control := .nodes t.nodes
    place := some (Run.placeOf (m.setting engine) m.state.line t)
    state := { m.state with line := 0 } }

/-- Does the next step of a tag of the host. -/
def program (engine : Engine) (m : Machine) (tag : String) (body : List Node) :
    Program → Option Signal → Machine
  | .done v, pending =>
    m.perform (Run.write v.toText) fun m () =>
      match pending with
      | some signal => m.endWith (.error (.signal signal))
      | none => m.done
  | .fail e, _ => m.endWith (.error (.error (e.withinTag tag)))
  | .body _ next, some signal => { m with control := .program tag body (next "") (some signal) }
  | .body where_ next, none =>
    let m := m.collect (.host tag body next)
    match where_ with
    | .here => m.goOn body
    | .inside frame => (m.openBlock frame).goOn body
    | .isolated data => (m.isolate data).goOn body
  | .look next, pending =>
    { m with control := .program tag body (next ((m.setting engine).view m.state)) pending }
  | .assign name v next, pending =>
    m.perform (Run.assign name v) fun m () => { m with control := .program tag body next pending }

/-- Goes on with what waited, after a body has ended. -/
def resume (m : Machine) (how : Except Stop Unit) : Frame → Machine
  | .behind nodes =>
    match how with
    | .ok () => m.goOn nodes
    | .error _ => m.endWith how
  | .block => { m with around := m.around.pop }.endWith how
  | .isolation around locals positions =>
    { m with around, state := { m.state with locals, positions } }.endWith how
  | .template place line =>
    { m with place, state := { m.state with line } }.endWith
      (how.mapError fun (stop : Stop) => .error (stop.toError.positioned m.place m.state.line))
  | .visits l target body position items =>
    match how, items with
    | .error (.error _), _ => m.endWith how
    | .error (.signal .leave), _ => m.done
    | _, [] => m.done
    | _, v :: rest =>
      m.perform (Run.moveTo l position) fun m () =>
        ({ m with around := m.around.bind target v }.wait
          (.visits l target body (position + 1) rest)).goOn body
  | .items l called t position items =>
    match how, items with
    | .error _, _ => m.endWith how
    | .ok (), [] => m.done
    | .ok (), v :: rest =>
      m.perform (Run.moveTo l position) fun m () =>
        { { m with around := m.around.bind called v }.wait
            (.items l called t (position + 1) rest) with control := .template t }
  | .captured name output =>
    let text := m.state.output
    let m := { m with state := { m.state with output } }
    match how with
    | .ok () => m.perform (Run.assign name (.text text)) fun m () => m.done
    | .error _ => m.endWith how
  | .host tag body next output =>
    let text := m.state.output
    let m := { m with state := { m.state with output } }
    match how with
    | .ok () => { m with control := .program tag body (next text) none }
    | .error (.signal signal) => { m with control := .program tag body (next text) (some signal) }
    | .error (.error e) => m.endWith (.error (.error (e.withinTag tag)))

/-- The next step; there is none when all has ended. -/
def step (engine : Engine) (m : Machine) : Option Machine :=
  match m.control with
  | .nodes [] => some m.done
  | .nodes (n :: rest) =>
    some { m.wait (.behind rest) with
      control := .node n
      state := { m.state with line := n.pos.line } }
  | .node n => some (m.node engine n)
  | .template t => some (m.enter engine t)
  | .program tag body p pending => some (m.program engine tag body p pending)
  | .ended how =>
    match m.stack with
    | [] => none
    | f :: rest => some ({ m with stack := rest }.resume how f)

/-- Some steps lead from one point to another. -/
abbrev Steps (engine : Engine) : Machine → Machine → Prop :=
  Relation.ReflTransGen fun m m' => m.step engine = some m'

/-- Some engine leads from one point to the next: the host need not answer the same each time. -/
def Next (m m' : Machine) : Prop := ∃ engine, m.step engine = some m'

/-- The number of templates that have been entered and not left.  The first one, which stands below
the stack, does not count. -/
def active (m : Machine) : Nat := entered m.stack
  where
    /-- The number of templates that wait to be left. -/
    entered : List Frame → Nat
      | [] => 0
      | .template _ _ :: stack => entered stack + 1
      | _ :: stack => entered stack

/-- The machine at the beginning of a template. -/
def start (env : Environment) (t : Template) (data : Bindings) : Machine :=
  let s := env.setting data (some (env.placeOf t))
  ⟨.nodes t.nodes, [], s.around, s.place, env.start s⟩

/-- What is given to the host when nothing is left to do. -/
def outcome (env : Environment) (m : Machine) : Option (Except Error String × Environment) :=
  match m.control, m.stack with
  | .ended how, [] =>
    let how := how.mapError fun stop => stop.toError.positioned m.place m.state.line
    some (how.map fun () => m.state.output, { env with shelf := m.state.shelf })
  | _, _ => none

end Machine

end Liquid
