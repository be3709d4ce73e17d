import Liquid.Proofs.Rendering.Alike
import Liquid.Proofs.Rendering.Looks

/-!
# The shelf does not show

What lies on the shelf decides whether a template is loaded again, and nothing else: whatever the
host asks for, and in whatever order, it gets the same with any size of the cache, also with none.

**Invariant.** Every template on the shelf is the one that the loader gives under its name
(`Engine.Agrees`).  What cannot be loaded is never put there.

* `Run.Indifferent`: two runs that do the same, whatever lies on the shelf; the lemmas after it say
  so of each run of a node.
* `Run.indifferent_nodes`: so it is for nodes, by induction on the levels and then on the bodies.
* `Environment.Twin.serveAll`: so it is for everything that the host may ask for.
* `Environment.cache_transparent`: the answers are the same for any two sizes of the cache.
-/
namespace Liquid

/-- Two states that differ in what lies on the shelf only. -/
structure State.Twin (engine : Engine) (st su : State) : Prop where
  output : st.output = su.output
  locals : st.locals = su.locals
  line : st.line = su.line
  positions : st.positions = su.positions
  shelf : engine.Agrees st.shelf
  other : engine.Agrees su.shelf

theorem State.Twin.same {engine : Engine} {st su : State} (h : st.Twin engine su) :
    su = { st with shelf := su.shelf } := by
  rw [h.output, h.locals, h.line, h.positions]

namespace Run

/-! ## Runs -/

variable {α β : Type} {engine : Engine} {rel : α → α → Prop} {rel' : β → β → Prop}

/-- Two results of runs that did the same. -/
inductive Equals (engine : Engine) (rel : α → α → Prop) :
    Except Stop α × State → Except Stop α × State → Prop where
  | ok {x y st su} : rel x y → st.Twin engine su → Equals engine rel (.ok x, st) (.ok y, su)
  | error {stop st su} :
    st.Twin engine su → Equals engine rel (.error stop, st) (.error stop, su)

/-- Two runs that do the same, whatever lies on the shelf. -/
def Indifferent (engine : Engine) (rel : α → α → Prop) (run run' : Run α) : Prop :=
  ∀ st su, State.Twin engine st su → Equals engine rel (run st) (run' su)

theorem indifferent_bind {run run' : Run α} {f f' : α → Run β}
    (h : Indifferent engine rel run run')
    (hf : ∀ x y, rel x y → Indifferent engine rel' (f x) (f' y)) :
    Indifferent engine rel' (run >>= f) (run' >>= f') := by
  intro st su hs
  rw [bind_apply, bind_apply]
  have hr := h st su hs
  generalize run st = r at hr
  generalize run' su = r' at hr
  cases hr with
  | ok hx hs => exact hf _ _ hx _ _ hs
  | error hs => exact .error hs

/-- A value that is the same on both sides is handed on. -/
theorem indifferent_bind_of {run run' : Run α} {f f' : α → Run β}
    (h : Indifferent engine Eq run run')
    (hf : ∀ x st st', run st = (.ok x, st') → Indifferent engine rel' (f x) (f' x)) :
    Indifferent engine rel' (run >>= f) (run' >>= f') := by
  intro st su hs
  rw [bind_apply, bind_apply]
  have hr := h st su hs
  generalize hx : run st = r at hr
  generalize run' su = r' at hr
  cases hr with
  | ok hxy hs => exact hxy ▸ hf _ st _ hx _ _ hs
  | error hs => exact .error hs

theorem indifferent_bind_eq {run run' : Run α} {f f' : α → Run β}
    (h : Indifferent engine Eq run run') (hf : ∀ x, Indifferent engine rel' (f x) (f' x)) :
    Indifferent engine rel' (run >>= f) (run' >>= f') :=
  indifferent_bind_of h fun x _ _ _ => hf x

/-- A run that neither sees the shelf nor changes it. -/
def Unshelved (run : Run α) : Prop :=
  ∀ (st : State) (shelf : Shelf),
    run { st with shelf } = ((run st).1, { (run st).2 with shelf })

theorem Looks.unshelved {run : Run α} (h : Looks run) : Unshelved run := by
  intro st shelf
  obtain ⟨r, hr⟩ := h st
  have hst : run st = (r.mapError Stop.error, st) := hr st.shelf
  rw [hr, hst]

theorem Unshelved.indifferent {run : Run α} (h : Unshelved run) : Indifferent engine Eq run run := by
  intro st su hs
  have hshelf : (run st).2.shelf = st.shelf :=
    congrArg (fun r : Except Stop α × State => r.2.shelf) (h st st.shelf)
  rw [hs.same, h st su.shelf]
  have ht : State.Twin engine (run st).2 { (run st).2 with shelf := su.shelf } :=
    ⟨rfl, rfl, rfl, rfl, hshelf ▸ hs.shelf, hs.other⟩
  rcases hr : run st with ⟨stop | x, st'⟩ <;> rw [hr] at ht
  · exact .error ht
  · exact .ok rfl ht

theorem indifferent_looks {run : Run α} (h : Looks run) : Indifferent engine Eq run run :=
  h.unshelved.indifferent

theorem indifferent_pure (x : α) : Indifferent engine Eq (pure x) (pure x) :=
  indifferent_looks (looks_pure x)

theorem indifferent_write (text : String) : Indifferent engine Eq (write text) (write text) :=
  Unshelved.indifferent fun _ _ => rfl

theorem indifferent_assign (name : String) (v : Value) :
    Indifferent engine Eq (assign name v) (assign name v) :=
  Unshelved.indifferent fun _ _ => rfl

theorem indifferent_atLine (line : Int) : Indifferent engine Eq (atLine line) (atLine line) :=
  Unshelved.indifferent fun _ _ => rfl

theorem indifferent_moveTo (l : Loop) (position : Int) :
    Indifferent engine Eq (moveTo l position) (moveTo l position) :=
  Unshelved.indifferent fun _ _ => rfl

theorem indifferent_beginLoop (length : Int) (parent : Option Loop) :
    Indifferent engine Eq (beginLoop length parent) (beginLoop length parent) :=
  Unshelved.indifferent fun _ _ => rfl

theorem indifferent_throw (stop : Stop) :
    Indifferent engine rel (throw stop : Run α) (throw stop) := fun _ _ hs => .error hs

section

variable {run run' : Run Unit}

theorem indifferent_untilSignal (h : Indifferent engine Eq run run') :
    Indifferent engine Eq (untilSignal run) (untilSignal run') := by
  intro st su hs
  have hr := h st su hs
  unfold untilSignal
  generalize run st = r at hr
  generalize run' su = r' at hr
  cases hr with
  | ok hx hs => exact .ok rfl hs
  | @error stop _ _ hs =>
    cases stop with
    | signal signal => exact .ok rfl hs
    | error e => exact .error hs

theorem indifferent_onError {run run' : Run α} (h : Indifferent engine Eq run run')
    (f : Error → Error) : Indifferent engine Eq (onError f run) (onError f run') := by
  intro st su hs
  have hr := h st su hs
  unfold onError
  generalize run st = r at hr
  generalize run' su = r' at hr
  cases hr with
  | ok hx hs => exact .ok hx hs
  | @error stop _ _ hs => cases stop <;> exact .error hs

theorem indifferent_captured (h : Indifferent engine Eq run run') :
    Indifferent engine Eq (captured run) (captured run') := by
  intro st su hs
  rw [captured_apply, captured_apply]
  have hr := h _ _ { hs with output := rfl : State.Twin engine { st with output := "" }
    { su with output := "" } }
  generalize run { st with output := "" } = r at hr
  generalize run' { su with output := "" } = r' at hr
  cases hr with
  | ok hx ht => exact .ok ht.output { ht with output := hs.output }
  | error ht => exact .error { ht with output := hs.output }

theorem indifferent_capturedToSignal (h : Indifferent engine Eq run run') :
    Indifferent engine Eq (capturedToSignal run) (capturedToSignal run') := by
  intro st su hs
  rw [capturedToSignal_apply, capturedToSignal_apply]
  have hr := h _ _ { hs with output := rfl : State.Twin engine { st with output := "" }
    { su with output := "" } }
  generalize run { st with output := "" } = r at hr
  generalize run' { su with output := "" } = r' at hr
  cases hr with
  | ok hx ht => exact .ok (by rw [ht.output]) { ht with output := hs.output }
  | @error stop _ _ ht =>
    cases stop with
    | signal signal => exact .ok (by rw [ht.output]) { ht with output := hs.output }
    | error e => exact .error { ht with output := hs.output }

theorem indifferent_enter (h : Indifferent engine Eq run run') (place : Option Place) :
    Indifferent engine Eq (enter place run) (enter place run') := by
  intro st su hs
  rw [enter_apply, enter_apply]
  have hr := h _ _ { hs with line := rfl : State.Twin engine { st with line := 0 }
    { su with line := 0 } }
  generalize run { st with line := 0 } = r at hr
  generalize run' { su with line := 0 } = r' at hr
  cases hr with
  | ok hx ht => exact .ok hx { ht with line := hs.line }
  | error ht =>
    rw [ht.line]
    exact .error { ht with line := hs.line }

theorem indifferent_isolate {run run' : Run α} (h : Indifferent engine rel run run') (taken : Nat) :
    Indifferent engine rel (isolate taken run) (isolate taken run') := by
  intro st su hs
  unfold isolate
  have hr := h _ _ { hs with locals := rfl, positions := rfl : State.Twin engine
    { st with locals := [], positions := .outside taken }
    { su with locals := [], positions := .outside taken } }
  generalize run { st with locals := [], positions := .outside taken } = r at hr
  generalize run' { su with locals := [], positions := .outside taken } = r' at hr
  cases hr with
  | ok hx ht => exact .ok hx { ht with locals := hs.locals, positions := hs.positions }
  | error ht => exact .error { ht with locals := hs.locals, positions := hs.positions }

theorem indifferent_visitAll {visit visit' : Int → Value → Run Unit}
    (h : ∀ position v, Indifferent engine Eq (visit position v) (visit' position v))
    (position : Int) (items : List Value) :
    Indifferent engine Eq (visitAll visit position items) (visitAll visit' position items) := by
  induction items generalizing position with
  | nil => exact indifferent_pure ()
  | cons v rest ih =>
    refine indifferent_bind_eq (indifferent_untilSignal (h position v)) fun signal => ?_
    cases signal with
    | none => exact ih (position + 1)
    | some signal =>
      cases signal with
      | leave => exact indifferent_pure ()
      | next => exact ih (position + 1)

theorem indifferent_forAll {visit visit' : Int → Value → Run Unit}
    (h : ∀ position v, Indifferent engine Eq (visit position v) (visit' position v))
    (position : Int) (items : List Value) :
    Indifferent engine Eq (forAll visit position items) (forAll visit' position items) := by
  induction items generalizing position with
  | nil => exact indifferent_pure ()
  | cons v rest ih => exact indifferent_bind_eq (h position v) fun _ => ih (position + 1)

end

/-! ## Templates within templates -/

variable {s : Setting} {deeper : Option Renderer}

theorem indifferent_fetch (he : s.engine = engine) (tag name : String) :
    Indifferent engine SameTemplate (fetch s tag name) (fetch s tag name) := by
  intro st su hs
  rw [fetch_apply, fetch_apply, he]
  have hq := (Engine.toTemplate_fetch hs.shelf name).trans
    (Engine.toTemplate_fetch hs.other name).symm
  have ht : State.Twin engine { st with shelf := (engine.fetch name st.shelf).2 }
      { su with shelf := (engine.fetch name su.shelf).2 } :=
    { hs with
      shelf := Engine.agrees_fetch hs.shelf name
      other := Engine.agrees_fetch hs.other name }
  generalize (engine.fetch name st.shelf).1 = r at hq ⊢
  generalize (engine.fetch name su.shelf).1 = r' at hq ⊢
  cases r <;> cases r' <;> simp only [Except.map, reduceCtorEq, Except.ok.injEq,
    Except.error.injEq] at hq
  · rw [hq]
    exact .error ht
  · exact .ok hq ht

/-- The renderer of the level below, and a template that was found, its number apart. -/
def SameFound (deeper : Option Renderer) (found found' : Renderer × Loaded) : Prop :=
  deeper = some found.1 ∧ found.1 = found'.1 ∧ SameTemplate found.2 found'.2

theorem indifferent_findTemplate (he : s.engine = engine) (tag : String) (e : Expr) :
    Indifferent engine (SameFound deeper) (findTemplate deeper s tag e)
      (findTemplate deeper s tag e) := by
  refine indifferent_bind_eq (indifferent_looks (looks_eval s e)) fun v => ?_
  cases deeper with
  | none =>
    intro st su hs
    change Equals engine (SameFound none)
      (.error (.error (.of (.render ((s.place.getD .nowhere).tooDeep st.line v.toText)))), st)
      (.error (.error (.of (.render ((s.place.getD .nowhere).tooDeep su.line v.toText)))), su)
    rw [hs.line]
    exact .error hs
  | some renderer =>
    refine indifferent_bind (indifferent_fetch he tag v.toText) fun t t' ht => ?_
    exact fun st su hs => .ok ⟨rfl, rfl, ht⟩ hs

theorem SameTemplate.aliasIn {t t' : Loaded} (h : SameTemplate t t') (what : Inclusion) :
    aliasIn what t = aliasIn what t' := by
  unfold Run.aliasIn
  rw [h]

theorem SameTemplate.evalGiven {t t' : Loaded} (h : SameTemplate t t') (s : Setting)
    (what : Inclusion) : evalGiven s what t = evalGiven s what t' := by
  unfold Run.evalGiven
  rw [h.aliasIn]

theorem SameTemplate.renderTemplate {t t' : Loaded} (h : SameTemplate t t') (renderer : Renderer)
    (s : Setting) : renderTemplate renderer s t = renderTemplate renderer s t' := by
  unfold Run.renderTemplate placeOf
  rw [h]

/-- A renderer that does the same with some nodes, whatever lies on the shelf. -/
def IndifferentBy (engine : Engine) (renderer : Renderer) (nodes : List Node) : Prop :=
  ∀ s : Setting, s.engine = engine → Indifferent engine Eq (renderer s nodes) (renderer s nodes)

theorem indifferent_renderTemplate {renderer : Renderer} {t : Loaded}
    (h : IndifferentBy engine renderer t.nodes) (he : s.engine = engine) :
    Indifferent engine Eq (renderTemplate renderer s t) (renderTemplate renderer s t) := by
  intro st su hs
  unfold renderTemplate
  have hi := indifferent_enter
    (h { s with place := some (placeOf s st.line t) } he) (some (placeOf s st.line t)) st su hs
  have hl : placeOf s su.line t = placeOf s st.line t := by rw [hs.line]
  change Equals engine Eq (enter (some (placeOf s st.line t)) _ st)
    (enter (some (placeOf s su.line t)) (renderer { s with place := some (placeOf s su.line t) } _) su)
  rw [hl]
  exact hi

/-! ## Nodes -/

theorem indifferent_beginItems (s : Setting) (what : Inclusion) (e : Expr) :
    Indifferent engine Eq (beginItems s what e) (beginItems s what e) := by
  refine indifferent_bind_eq (indifferent_looks (looks_evalBindings s what.bindings)) fun b => ?_
  refine indifferent_bind_eq (indifferent_looks (looks_evalItems s e)) fun items => ?_
  exact indifferent_bind_eq (indifferent_beginLoop _ _) fun l => indifferent_pure _

theorem indifferent_include
    (hd : ∀ renderer nodes, deeper = some renderer → IndifferentBy engine renderer nodes)
    (he : s.engine = engine) (what : Inclusion) (each : Option Expr) :
    Indifferent engine Eq (includeTemplate deeper s what each)
      (includeTemplate deeper s what each) := by
  refine indifferent_bind (indifferent_findTemplate he "include" what.template) ?_
  rintro ⟨renderer, t⟩ ⟨_, t'⟩ ⟨hr, rfl, ht⟩
  have hn := hd renderer t.nodes hr
  cases each with
  | none =>
    dsimp only
    rw [← ht.evalGiven]
    refine indifferent_bind_eq (indifferent_looks (looks_evalGiven s what t)) fun bindings => ?_
    rw [← ht.renderTemplate]
    exact indifferent_renderTemplate hn he
  | some e =>
    refine indifferent_bind_eq (indifferent_beginItems s what e) fun begun => ?_
    refine indifferent_forAll (fun position v => ?_) 0 begun.2.1
    refine indifferent_bind_eq (indifferent_moveTo begun.2.2 position) fun _ => ?_
    rw [← ht.aliasIn, ← ht.renderTemplate]
    exact indifferent_renderTemplate hn he

theorem indifferent_alone
    (hd : ∀ renderer nodes, deeper = some renderer → IndifferentBy engine renderer nodes)
    (he : s.engine = engine) (what : Inclusion) :
    Indifferent engine Eq (renderAlone deeper s what) (renderAlone deeper s what) := by
  refine indifferent_bind (indifferent_findTemplate he "render" what.template) ?_
  rintro ⟨renderer, t⟩ ⟨_, t'⟩ ⟨hr, rfl, ht⟩
  have hn := hd renderer t.nodes hr
  dsimp only
  rw [← ht.evalGiven]
  refine indifferent_bind_eq (indifferent_looks (looks_evalGiven s what t)) fun bindings => ?_
  rw [← ht.renderTemplate]
  exact indifferent_isolate (indifferent_renderTemplate (s := s.within (.isolated bindings)) hn he) _

theorem indifferent_program {body : Surrounding → Run (String × Option Signal)}
    (hb : ∀ where_, Indifferent engine Eq (body where_) (body where_)) (p : Program)
    (pending : Option Signal) :
    Indifferent engine Eq (program s body p pending) (program s body p pending) := by
  induction p generalizing pending with
  | done v => exact indifferent_pure _
  | fail e => exact indifferent_throw _
  | body where_ next ih =>
    cases pending with
    | none => exact indifferent_bind_eq (hb where_) fun r => ih r.1 r.2
    | some signal => exact ih "" (some signal)
  | look next ih => exact indifferent_bind_eq (indifferent_looks (looks_look s)) fun view => ih view _
  | assign name v next ih => exact indifferent_bind_eq (indifferent_assign name v) fun _ => ih pending

theorem indifferent_hostTag (name : String) (arguments : List Expr)
    {body : Surrounding → Run (String × Option Signal)}
    (hb : ∀ where_, Indifferent engine Eq (body where_) (body where_)) :
    Indifferent engine Eq (hostTag s name arguments body) (hostTag s name arguments body) := by
  unfold hostTag
  cases s.engine.tags.get? name with
  | none => exact indifferent_looks (looks_unknownTag s name)
  | some tag =>
    refine indifferent_bind_eq (indifferent_looks (looks_evalArguments s arguments)) fun values => ?_
    refine indifferent_bind_eq (indifferent_onError (indifferent_program hb _ none) _) fun r => ?_
    refine indifferent_bind_eq (indifferent_write _) fun _ => ?_
    cases r.2 with
    | none => exact indifferent_pure ()
    | some signal => exact indifferent_throw _

/-- A node whose bodies do so does the same, whatever lies on the shelf. -/
theorem indifferent_node
    (hd : ∀ renderer nodes, deeper = some renderer → IndifferentBy engine renderer nodes)
    (he : s.engine = engine) {n : Node}
    (hb : ∀ body ∈ n.bodies, IndifferentBy engine (renderNodes deeper) body) :
    Indifferent engine Eq (renderNode deeper s n) (renderNode deeper s n) := by
  cases n with
  | text pos text | raw pos text =>
    rw [renderNode]
    exact indifferent_write text
  | comment pos text =>
    rw [renderNode]
    exact indifferent_pure ()
  | signal pos signal =>
    rw [renderNode]
    exact indifferent_throw _
  | output pos e filters left right =>
    cases e with
    | none =>
      rw [renderNode]
      exact indifferent_pure ()
    | some e =>
      rw [renderNode]
      exact indifferent_bind_eq (indifferent_looks (looks_evalFiltered s e filters))
        fun v => indifferent_write _
  | conditional pos negated test body branches otherwise =>
    rw [renderNode_conditional]
    refine indifferent_bind_of
      (indifferent_looks (looks_chooseBody s negated test body branches otherwise)) ?_
    intro chosen st st' hc
    exact hb chosen (mem_bodies_of_chooseBody hc) s he
  | loop pos head body otherwise =>
    rw [renderNode]
    refine indifferent_bind_eq (indifferent_looks (looks_loopItems s head)) fun items => ?_
    cases items with
    | nil => exact hb otherwise (.tail _ (.head _)) s he
    | cons v rest =>
      refine indifferent_bind_eq (indifferent_looks (looks_look s)) fun view => ?_
      refine indifferent_bind_eq (indifferent_beginLoop _ _) fun l => ?_
      refine indifferent_visitAll (fun position v => ?_) 0 (v :: rest)
      exact indifferent_bind_eq (indifferent_moveTo l position) fun _ =>
        hb body (.head _) (s.push _) he
  | choice pos subject whens otherwise =>
    rw [renderNode_choice, bind_assoc]
    refine indifferent_bind_eq (indifferent_looks (looks_eval s subject)) fun v => ?_
    refine indifferent_bind_of (indifferent_looks (looks_chooseWhen s v otherwise whens)) ?_
    intro chosen st st' hc
    exact hb chosen (mem_bodies_of_chooseWhen hc) s he
  | assign pos name e filters =>
    rw [renderNode]
    exact indifferent_bind_eq (indifferent_looks (looks_evalFiltered s e filters))
      fun v => indifferent_assign name v
  | capture pos name body =>
    rw [renderNode]
    exact indifferent_bind_eq (indifferent_captured (hb body (.head _) s he))
      fun text => indifferent_assign name _
  | «include» pos what each =>
    rw [renderNode]
    exact indifferent_include hd he what each
  | render pos what =>
    rw [renderNode]
    exact indifferent_alone hd he what
  | tag pos name arguments body markup =>
    rw [renderNode]
    refine indifferent_hostTag name arguments fun where_ => ?_
    have hw : Indifferent engine Eq
        (capturedToSignal (renderNodes deeper (s.within where_) body))
        (capturedToSignal (renderNodes deeper (s.within where_) body)) := by
      refine indifferent_capturedToSignal (hb body (.head _) (s.within where_) ?_)
      cases where_ <;> exact he
    cases where_ with
    | here | inside frame => exact hw
    | isolated data => exact indifferent_isolate hw _

theorem indifferent_of_deeper
    (hd : ∀ renderer nodes, deeper = some renderer → IndifferentBy engine renderer nodes)
    (nodes : List Node) : IndifferentBy engine (renderNodes deeper) nodes := by
  induction nodes using Node.induction_bodies with
  | h nodes ihb =>
    intro s he
    induction nodes with
    | nil =>
      rw [renderNodes_nil]
      exact indifferent_pure ()
    | cons n rest ih =>
      obtain ⟨hn, hrest⟩ := List.forall_mem_cons.1 ihb
      rw [renderNodes_cons]
      refine indifferent_bind_eq (indifferent_atLine _) fun _ => ?_
      exact indifferent_bind_eq (indifferent_node hd he hn) fun _ => ih hrest

/-- Rendering nodes does the same, whatever lies on the shelf. -/
theorem indifferent_nodes (engine : Engine) (k : Nat) (nodes : List Node) :
    IndifferentBy engine (renderNodes (below k)) nodes := by
  induction k generalizing nodes with
  | zero =>
    refine indifferent_of_deeper (fun renderer nodes hr => ?_) nodes
    cases hr
  | succ k ih =>
    refine indifferent_of_deeper (fun renderer nodes hr => ?_) nodes
    cases hr
    exact ih nodes

end Run

/-! ## What the host asks for -/

/-- What the host may ask of an environment. -/
inductive Request where
  | get (name : String)
  | render (t : Template) (data : Bindings)
  | renderNamed (name : String) (data : Except Fault Bindings)
  | clear

/-- What the host is given: a template or a text, or an error instead. -/
inductive Answer where
  | template (r : Except Error Template)
  | text (r : Except Error String)
  | nothing

/-- A host at work: what it asks for next may depend on all answers so far. -/
inductive Client where
  | done
  | ask (r : Request) (next : Answer → Client)

namespace Environment

/-- The environment with an empty cache of some size. -/
def cached (env : Environment) (size : Int) : Environment :=
  { env with shelf := { cache := { maxSize := size, label := env.shelf.cache.label } } }

/-- Answers a request. -/
def serve (env : Environment) : Request → Answer × Environment
  | .get name => (.template ((env.get name).1.map Loaded.toTemplate), (env.get name).2)
  | .render t data => (.text (env.render t data).1, (env.render t data).2)
  | .renderNamed name data => (.text (env.renderNamed name data).1, (env.renderNamed name data).2)
  | .clear => (.nothing, env.clearCache)

/-- The answers to a host, and the environment after them. -/
def serveAll (env : Environment) : Client → List Answer × Environment
  | .done => ([], env)
  | .ask r next =>
    let rest := (env.serve r).2.serveAll (next (env.serve r).1)
    ((env.serve r).1 :: rest.1, rest.2)

/-- Two environments that differ in what lies on the shelf only. -/
inductive Twin (env : Environment) : Environment → Prop where
  | intro {shelf : Shelf} :
    env.engine.Agrees env.shelf → env.engine.Agrees shelf → Twin env { env with shelf }

namespace Twin

variable {env env' : Environment}

theorem get (h : env.Twin env') (name : String) :
    (env.get name).1.map Loaded.toTemplate = (env'.get name).1.map Loaded.toTemplate ∧
      (env.get name).2.Twin (env'.get name).2 := by
  obtain ⟨hs, ho⟩ := h
  exact ⟨(Engine.toTemplate_fetch hs name).trans (Engine.toTemplate_fetch ho name).symm,
    .intro (Engine.agrees_fetch hs name) (Engine.agrees_fetch ho name)⟩

theorem clearCache (h : env.Twin env') : env.clearCache.Twin env'.clearCache := by
  obtain ⟨hs, ho⟩ := h
  refine .intro (fun name t ht => ?_) fun name t ht => ?_
  · cases ht
  · cases ht

theorem render (h : env.Twin env') (t : Template) (data : Bindings) :
    (env.render t data).1 = (env'.render t data).1 ∧
      (env.render t data).2.Twin (env'.render t data).2 := by
  obtain @⟨shelf, hs, ho⟩ := h
  let s := env.setting data (some (env.placeOf t))
  have hr := Run.indifferent_enter (Run.indifferent_nodes env.engine env.levels t.nodes s rfl) s.place
    (env.start s) ({ env with shelf }.start s) ⟨rfl, rfl, rfl, rfl, hs, ho⟩
  unfold Environment.render
  change (let r := Run.enter s.place (renderNodes (below env.levels) s t.nodes) (env.start s)
    let r' := Run.enter s.place (renderNodes (below env.levels) s t.nodes)
      ({ env with shelf }.start s)
    ((ended r.1).map fun _ => r.2.output) = ((ended r'.1).map fun _ => r'.2.output) ∧
      Twin { env with shelf := r.2.shelf } { env with shelf := r'.2.shelf })
  generalize Run.enter s.place (renderNodes (below env.levels) s t.nodes) (env.start s) = r at hr ⊢
  generalize Run.enter s.place _ ({ env with shelf }.start s) = r' at hr ⊢
  cases hr with
  | ok _ ht => exact ⟨congrArg Except.ok ht.output, .intro ht.shelf ht.other⟩
  | error ht => exact ⟨rfl, .intro ht.shelf ht.other⟩

theorem renderNamed (h : env.Twin env') (name : String) (data : Except Fault Bindings) :
    (env.renderNamed name data).1 = (env'.renderNamed name data).1 ∧
      (env.renderNamed name data).2.Twin (env'.renderNamed name data).2 := by
  obtain ⟨hg, ht⟩ := h.get name
  unfold Environment.renderNamed
  generalize env.get name = r at hg ht ⊢
  generalize env'.get name = r' at hg ht ⊢
  rcases r with ⟨f | t, e⟩ <;> rcases r' with ⟨f' | t', e'⟩ <;>
    simp only [Except.map, reduceCtorEq, Except.ok.injEq, Except.error.injEq] at hg
  · exact ⟨congrArg Except.error hg, ht⟩
  · cases data with
    | error f => exact ⟨rfl, ht⟩
    | ok data =>
      dsimp only
      rw [← hg]
      exact ht.render t.toTemplate data

theorem serve (h : env.Twin env') (r : Request) :
    (env.serve r).1 = (env'.serve r).1 ∧ (env.serve r).2.Twin (env'.serve r).2 := by
  cases r with
  | get name => exact ⟨congrArg Answer.template (h.get name).1, (h.get name).2⟩
  | render t data => exact ⟨congrArg Answer.text (h.render t data).1, (h.render t data).2⟩
  | renderNamed name data =>
    exact ⟨congrArg Answer.text (h.renderNamed name data).1, (h.renderNamed name data).2⟩
  | clear => exact ⟨rfl, h.clearCache⟩

theorem serveAll (h : env.Twin env') (client : Client) :
    (env.serveAll client).1 = (env'.serveAll client).1 ∧
      (env.serveAll client).2.Twin (env'.serveAll client).2 := by
  induction client generalizing env env' with
  | done => exact ⟨rfl, h⟩
  | ask r next ih =>
    obtain ⟨hr, ht⟩ := h.serve r
    obtain ⟨ha, he⟩ := ih (env.serve r).1 ht
    unfold Environment.serveAll
    rw [← hr]
    exact ⟨congrArg (List.cons (env.serve r).1) ha, he⟩

end Twin

/-! ## The environment after requests -/

variable {env env' : Environment}

theorem agrees_cached (env : Environment) (size : Int) :
    env.engine.Agrees (env.cached size).shelf := by
  intro name t ht
  cases ht

theorem twin_cached (env : Environment) (size size' : Int) :
    (env.cached size).Twin (env.cached size') :=
  .intro (env.agrees_cached size) (env.agrees_cached size')

theorem renderNamed_keeps (env : Environment) (name : String) (data : Except Fault Bindings) :
    (env.renderNamed name data).2 = { env with shelf := (env.renderNamed name data).2.shelf } := by
  have hg : (env.get name).2 = { env with shelf := (env.get name).2.shelf } := rfl
  unfold renderNamed
  generalize env.get name = r at hg
  obtain ⟨e | t, env'⟩ := r
  · exact hg
  · change env' = _ at hg
    rw [hg]
    cases data <;> rfl

theorem serve_keeps (env : Environment) (r : Request) :
    (env.serve r).2 = { env with shelf := (env.serve r).2.shelf } := by
  cases r with
  | renderNamed name data => exact renderNamed_keeps env name data
  | get name | render t data | clear => rfl

theorem Twin.agrees (h : env.Twin env') : env.engine.Agrees env'.shelf := by
  obtain ⟨-, ho⟩ := h
  exact ho

/-- A request changes the shelf only, and leaves on it what the loader gives. -/
theorem Twin.after_serve (h : env.Twin env') (r : Request) : env.Twin (env'.serve r).2 := by
  obtain @⟨shelf, hs, ho⟩ := h
  have hx : ({ env with shelf }.serve r).2.engine = env.engine := by
    rw [serve_keeps]
  have ha : { env with shelf }.Twin { env with shelf } := .intro ho ho
  have hl := (ha.serve r).2.agrees
  rw [hx] at hl
  rw [serve_keeps]
  exact .intro hs hl

theorem Twin.after_serveAll (h : env.Twin env') (client : Client) :
    env.Twin (env'.serveAll client).2 := by
  induction client generalizing env' with
  | done => exact h
  | ask r next ih => exact ih _ (h.after_serve r)

/-- Whatever the host asks for, it gets the same answers with any two sizes of the cache, also with
none.  At every time a template on the shelf is the one that would be loaded, so what cannot be
loaded is never served, and one that is there is not taken for missing; and rendering a template
gives what it would have given before. -/
theorem cache_transparent (env : Environment) (size size' : Int) (client : Client) :
    ((env.cached size).serveAll client).1 = ((env.cached size').serveAll client).1 ∧
      let after := ((env.cached size).serveAll client).2
      (∀ name t, (name, t) ∈ after.shelf.cache.entries → env.engine.load name = .ok t.toTemplate) ∧
        (∀ name, (after.get name).1.map Loaded.toTemplate = env.engine.load name) ∧
        ∀ t data, (after.render t data).1 = ((env.cached size').render t data).1 := by
  have ht : (env.cached size').Twin ((env.cached size).serveAll client).2 :=
    (twin_cached env size' size).after_serveAll client
  refine ⟨((twin_cached env size size').serveAll client).1, ht.agrees, fun name => ?_,
    fun t data => (ht.render t data).1.symm⟩
  exact (ht.get name).1.symm.trans (Engine.toTemplate_fetch (env.agrees_cached size') name)

end Environment

end Liquid
