import Liquid.Engine

/-!
# Renderings

A rendering writes an output.  While it runs it knows the local names, the line it is at, where the
loops stand and which templates are on the shelf.  It ends normally, with a signal to the loop
around it, or with an error; what it has written by then is there in each case.

* `output_collect`: what is collected does not reach the output.
* `line_enter`: after a template, the line is that of the template around it.
* `locals_isolate`: what is bound in isolation is forgotten.
* `positions_isolate`: loops that run in isolation are numbered apart, and forgotten.
-/
namespace Liquid

/-- What ends a rendering early. -/
inductive Stop where
  | signal (s : Signal)
  | error (e : Error)

/-- A signal that no loop takes, as a fault. -/
def Signal.fault : Signal → Fault
  | .leave => { kind := .strayBreak, note := some "" }
  | .next => { kind := .strayContinue, note := some "" }

/-- What ends a rendering early, as an error. -/
def Stop.toError : Stop → Error
  | .signal s => .ofFault s.fault
  | .error e => e

/-- What changes in the course of a rendering. -/
structure State where
  output : String := ""
  locals : Bindings := []
  line : Int := 0
  positions : Positions := #[]
  shelf : Shelf

/-- A rendering. -/
abbrev Run (α : Type) := ExceptT Stop (StateM State) α

/-- What stays the same for the nodes of a body. -/
structure Setting where
  engine : Engine
  around : Surroundings
  place : Option Place

namespace Setting

/-- The setting of a block that binds names of its own. -/
def push (s : Setting) (frame : Bindings) : Setting := { s with around := s.around.push frame }

/-- The setting in which a body is rendered. -/
def within (s : Setting) : Surrounding → Setting
  | .here => s
  | .inside frame => s.push frame
  | .isolated data => { s with around := s.around.isolated data }

/-- What is seen in a state. -/
def view (s : Setting) (st : State) : View :=
  ⟨{ toSurroundings := s.around, locals := st.locals }, st.positions, s.place, st.line⟩

end Setting

namespace Run

/-- Ends with an error. -/
def fail {α : Type} (e : Error) : Run α := throw (.error e)

/-- A result that may be an error. -/
def ofExcept {α : Type} : Except Error α → Run α
  | .ok x => pure x
  | .error e => fail e

/-- Writes a text. -/
def write (s : String) : Run Unit := modify fun st => { st with output := st.output ++ s }

/-- Binds a local name. -/
def assign (name : String) (v : Value) : Run Unit :=
  modify fun st => { st with locals := st.locals.set name v }

/-- Goes on to a line. -/
def atLine (line : Int) : Run Unit := modify fun st => { st with line }

/-- Looks at the rendering. -/
def look (s : Setting) : Run View := do return s.view (← get)

/-- The value of an expression. -/
def eval (s : Setting) (e : Expr) : Run Value := do
  ofExcept (e.eval (← look s) s.around.strict)

/-- The value of an expression with filters. -/
def evalFiltered (s : Setting) (e : Expr) (calls : List FilterCall) : Run Value := do
  ofExcept (e.evalFiltered (← look s) s.engine.filters s.around.strict calls)

/-- Runs aside: gives the text that would have been written and how the rendering ended. -/
def collect (run : Run Unit) : Run (String × Except Stop Unit) := fun st =>
  let (ended, st') := run { st with output := "" }
  (.ok (st'.output, ended), { st' with output := st.output })

/-- The text that would have been written, if the rendering ends normally. -/
def captured (run : Run Unit) : Run String := do
  match ← collect run with
  | (text, .ok ()) => return text
  | (_, .error stop) => throw stop

/-- The text that would have been written until the end or the first signal. -/
def capturedToSignal (run : Run Unit) : Run (String × Option Signal) := do
  match ← collect run with
  | (text, .ok ()) => return (text, none)
  | (text, .error (.signal s)) => return (text, some s)
  | (_, .error (.error e)) => fail e

/-- Holds back a signal. -/
def untilSignal (run : Run Unit) : Run (Option Signal) := fun st =>
  match run st with
  | (.ok (), st') => (.ok none, st')
  | (.error (.signal s), st') => (.ok (some s), st')
  | (.error (.error e), st') => (.error (.error e), st')

/-- Changes the error that a rendering ends with. -/
def onError {α : Type} (f : Error → Error) (run : Run α) : Run α := fun st =>
  match run st with
  | (.error (.error e), st') => (.error (.error (f e)), st')
  | r => r

/-- Runs a template within another.  Errors have their place there, and afterwards the line is again
that of the template around. -/
def enter (place : Option Place) (run : Run Unit) : Run Unit := fun st =>
  match run { st with line := 0 } with
  | (.error stop, st') =>
    (.error (.error (stop.toError.positioned place st'.line)), { st' with line := st.line })
  | (.ok (), st') => (.ok (), { st' with line := st.line })

/-- Runs with no local names and no loops but those from outside, which take so many numbers; what
is bound and the loops that run are forgotten. -/
def isolate {α : Type} (taken : Nat) (run : Run α) : Run α := fun st =>
  let (ended, st') := run { st with locals := [], positions := .outside taken }
  (ended, { st' with locals := st.locals, positions := st.positions })

/-- Begins a loop that has not yet moved. -/
def beginLoop (length : Int) (parent : Option Loop) : Run Loop := fun st =>
  (.ok ⟨st.positions.size, length, 0, parent⟩, { st with positions := st.positions.push (some 0) })

/-- Moves a loop on. -/
def moveTo (l : Loop) (position : Int) : Run Unit :=
  modify fun st => { st with positions := st.positions.setIfInBounds l.id (some position) }

/-- Visits items, counted from a position, until one of them is left with the signal to leave. -/
def visitAll (visit : Int → Value → Run Unit) : Int → List Value → Run Unit
  | _, [] => pure ()
  | position, v :: rest => do
    match ← untilSignal (visit position v) with
    | some .leave => pure ()
    | _ => visitAll visit (position + 1) rest

/-- Goes through items, counted from a position. -/
def forAll (visit : Int → Value → Run Unit) : Int → List Value → Run Unit
  | _, [] => pure ()
  | position, v :: rest => do
    visit position v
    forAll visit (position + 1) rest

/-! ## What the steps of a rendering do to its state -/

section

variable {α β : Type}

theorem bind_apply (run : Run α) (f : α → Run β) (st : State) :
    (run >>= f) st =
      match run st with
      | (.ok x, st') => f x st'
      | (.error stop, st') => (.error stop, st') := by
  change (StateT.bind run (ExceptT.bindCont f)) st = _
  unfold StateT.bind
  rcases run st with ⟨_ | _, st'⟩ <;> rfl

theorem bind_of_ok {run : Run α} {f : α → Run β} {st st' : State} {x : α}
    (h : run st = (.ok x, st')) : (run >>= f) st = f x st' := by
  rw [bind_apply, h]

theorem bind_of_error {run : Run α} {f : α → Run β} {st st' : State} {stop : Stop}
    (h : run st = (.error stop, st')) : (run >>= f) st = (.error stop, st') := by
  rw [bind_apply, h]

theorem ofExcept_apply (r : Except Error α) (st : State) :
    ofExcept r st = (r.mapError Stop.error, st) := by
  cases r <;> rfl

theorem eval_apply (s : Setting) (e : Expr) (st : State) :
    eval s e st = ((e.eval (s.view st) s.around.strict).mapError Stop.error, st) :=
  ofExcept_apply _ st

theorem evalFiltered_apply (s : Setting) (e : Expr) (calls : List FilterCall) (st : State) :
    evalFiltered s e calls st =
      ((e.evalFiltered (s.view st) s.engine.filters s.around.strict calls).mapError Stop.error,
        st) :=
  ofExcept_apply _ st

end

theorem output_collect (run : Run Unit) (st : State) :
    (collect run st).2.output = st.output := rfl

theorem capturedToSignal_apply (run : Run Unit) (st : State) :
    capturedToSignal run st =
      match run { st with output := "" } with
      | (.ok (), st') => (.ok (st'.output, none), { st' with output := st.output })
      | (.error (.signal s), st') => (.ok (st'.output, some s), { st' with output := st.output })
      | (.error (.error e), st') => (.error (.error e), { st' with output := st.output }) := by
  unfold capturedToSignal
  rw [bind_apply]
  unfold collect
  rcases run { st with output := "" } with ⟨(_ | _) | _, st'⟩ <;> rfl

theorem captured_apply (run : Run Unit) (st : State) :
    captured run st =
      match run { st with output := "" } with
      | (.ok (), st') => (.ok st'.output, { st' with output := st.output })
      | (.error stop, st') => (.error stop, { st' with output := st.output }) := by
  unfold captured
  rw [bind_apply]
  unfold collect
  rcases run { st with output := "" } with ⟨_ | _, st'⟩ <;> rfl

theorem enter_apply (place : Option Place) (run : Run Unit) (st : State) :
    enter place run st =
      ((run { st with line := 0 }).1.mapError fun (stop : Stop) =>
          .error (stop.toError.positioned place (run { st with line := 0 }).2.line),
        { (run { st with line := 0 }).2 with line := st.line }) := by
  unfold enter
  rcases run { st with line := 0 } with ⟨stop | ⟨⟩, st'⟩ <;> rfl

theorem line_enter (place : Option Place) (run : Run Unit) (st : State) :
    (enter place run st).2.line = st.line := by
  rw [enter_apply]

theorem locals_isolate {α : Type} (taken : Nat) (run : Run α) (st : State) :
    (isolate taken run st).2.locals = st.locals := rfl

theorem positions_isolate {α : Type} (taken : Nat) (run : Run α) (st : State) :
    (isolate taken run st).2.positions = st.positions := rfl

end Run

end Liquid
