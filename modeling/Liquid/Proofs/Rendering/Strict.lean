import Liquid.Proofs.Rendering.Looks
import Mathlib

/-!
# Strict renderings

Where every name must mean something, a rendering does what it does elsewhere, until it comes to a
name that means nothing.  There it fails, and nothing takes this error back: it goes through loops,
captures, tags and templates as it is.

**Tags of the host.** What a tag does may depend on everything that it sees of the rendering but on
whether names must mean something.

* `Expr.forgiven_eval`: the value of an expression is the lenient one, or a name means nothing.
* `Run.forgiven_nodes`: so it is for nodes, by induction on the levels and then on the bodies.
* `Environment.strict_adds_errors`: a strict rendering gives the text of the lenient one or fails;
  if it fails otherwise than by such a name, the lenient one fails alike.
-/
namespace Liquid

/-- The error is that a name means nothing. -/
def Error.Undefined (e : Error) : Prop :=
  ∃ r name meant, e.failure = .render r ∧ r.headline = .undefined name meant

namespace Error.Undefined

variable {e : Error}

theorem positioned (h : e.Undefined) (place : Option Place) (line : Int) :
    e.positioned place line = e := by
  obtain ⟨r, name, meant, hr, -⟩ := h
  unfold Error.positioned
  rw [hr]

theorem withinTag (h : e.Undefined) (tag : String) : e.withinTag tag = e := by
  obtain ⟨r, name, meant, hr, -⟩ := h
  unfold Error.withinTag
  rw [hr]

end Error.Undefined

/-! ## What is seen -/

/-- The same surroundings, where names may mean nothing. -/
def Surroundings.lenient (s : Surroundings) : Surroundings := { s with strict := false }

/-- The same names at the same place, where names may mean nothing. -/
def View.lenient (view : View) : View :=
  { view with scope := { view.scope with toSurroundings := view.scope.toSurroundings.lenient } }

/-- The same place among the same names, where names may mean nothing. -/
def Setting.lenient (s : Setting) : Setting := { s with around := s.around.lenient }

theorem View.lookup_lenient (view : View) (name : String) :
    view.lenient.lookup name = view.lookup name := rfl

theorem Setting.engine_lenient (s : Setting) : s.lenient.engine = s.engine := rfl

/-! ## Values -/

variable {α β : Type}

/-- A result fails with an error that says that a name means nothing. -/
def Misses (r : Except Error α) (e : Error) : Prop := r = .error e ∧ e.Undefined

/-- The second result is the first, unless that says that a name means nothing. -/
def Forgiven (r r' : Except Error α) : Prop := (∃ e, Misses r e) ∨ r = r'

namespace Forgiven

theorem refl (r : Except Error α) : Forgiven r r := .inr rfl

theorem bind {r r' : Except Error α} {f f' : α → Except Error β} (h : Forgiven r r')
    (hf : ∀ x, Forgiven (f x) (f' x)) : Forgiven (r >>= f) (r' >>= f') := by
  rcases h with ⟨e, rfl, he⟩ | rfl
  · exact .inl ⟨e, rfl, he⟩
  · cases r with
    | error e => exact .inr rfl
    | ok x => exact hf x

end Forgiven

section

variable (view : View) (strict : Bool)

theorem Expr.forgiven_evalName (pos : Position) (name : String) :
    Forgiven (evalName view strict pos name) (evalName view.lenient false pos name) := by
  unfold evalName
  rw [View.lookup_lenient]
  split
  · cases strict with
    | false => exact .refl _
    | true => exact .inl ⟨_, rfl, _, _, _, rfl, rfl⟩
  · exact .refl _

theorem Expr.forgiven_eval (e : Expr) :
    Forgiven (e.eval view strict) (e.eval view.lenient false) := by
  induction e with
  | const pos c => exact .refl _
  | name pos n => exact forgiven_evalName view strict pos n
  | property pos e n ih => exact ih.bind fun v => .refl _
  | index pos e k ihe ihk => exact ihe.bind fun v => ihk.bind fun key => .refl _
  | range pos a b iha ihb => exact iha.bind fun first => ihb.bind fun last => .refl _
  | compare pos a sign b iha ihb => exact iha.bind fun left => ihb.bind fun right => .refl _
  | contains pos a b iha ihb => exact iha.bind fun left => ihb.bind fun right => .refl _
  | connect pos a word b iha ihb =>
    refine iha.bind fun v => ?_
    -- The right side counts only where the left side does not decide.
    cases word <;> cases v.isTruthy
    · exact .refl _
    · exact ihb.bind fun right => .refl _
    · exact ihb.bind fun right => .refl _
    · exact .refl _

theorem Expr.forgiven_evalAll (es : List Expr) :
    Forgiven (evalAll view strict es) (evalAll view.lenient false es) := by
  induction es with
  | nil => exact .refl _
  | cons e rest ih => exact (forgiven_eval view strict e).bind fun v => ih.bind fun vs => .refl _

theorem Expr.forgiven_evalNamed (es : List (String × Expr)) (b : Bindings) :
    Forgiven (evalNamed view strict es b) (evalNamed view.lenient false es b) := by
  induction es generalizing b with
  | nil => exact .refl _
  | cons e rest ih => exact (forgiven_eval view strict e.2).bind fun v => ih _

theorem FilterCall.forgiven_apply (filters : Registry FilterFunction) (call : FilterCall)
    (v : Value) :
    Forgiven (call.apply view filters strict v) (call.apply view.lenient filters false v) := by
  unfold FilterCall.apply
  cases filters.get? call.name with
  | none => exact .refl _
  | some filter =>
    refine (Expr.forgiven_evalAll view strict call.arguments).bind fun byPosition => ?_
    exact (Expr.forgiven_evalNamed view strict call.named []).bind fun byName => .refl _

theorem FilterCall.forgiven_applyAll (filters : Registry FilterFunction) (calls : List FilterCall)
    (v : Value) :
    Forgiven (applyAll view filters strict calls v)
      (applyAll view.lenient filters false calls v) := by
  induction calls generalizing v with
  | nil => exact .refl _
  | cons call rest ih => exact (forgiven_apply view strict filters call v).bind fun v => ih v

theorem Expr.forgiven_evalFiltered (filters : Registry FilterFunction) (e : Expr)
    (calls : List FilterCall) :
    Forgiven (e.evalFiltered view filters strict calls)
      (e.evalFiltered view.lenient filters false calls) := by
  unfold evalFiltered
  rw [Bool.false_and]
  refine (forgiven_eval view _ e).bind fun v => ?_
  exact FilterCall.forgiven_applyAll view strict filters calls v

end

/-! ## Tags of the host -/

/-- A program of a host tag that does the same whether names must mean something or not. -/
inductive Program.Impartial : Program → Prop where
  | done (v : Value) : Impartial (.done v)
  | fail (e : Error) : Impartial (.fail e)
  | body {where_ : Surrounding} {next : String → Program} :
    (∀ text, Impartial (next text)) → Impartial (.body where_ next)
  | look {next : View → Program} :
    (∀ view, next view.lenient = next view) → (∀ view, Impartial (next view)) →
    Impartial (.look next)
  | assign {name : String} {v : Value} {next : Program} :
    Impartial next → Impartial (.assign name v next)

/-- No tag of the host depends on whether names must mean something. -/
def Engine.Impartial (engine : Engine) : Prop :=
  ∀ name tag, engine.tags.get? name = some tag → ∀ values, (tag.run values).Impartial

namespace Run

/-! ## Runs -/

/-- The second run does as the first, unless that fails since a name means nothing. -/
def Forgiven (run run' : Run α) : Prop :=
  ∀ st, (∃ e st', run st = (.error (.error e), st') ∧ e.Undefined) ∨ run st = run' st

theorem forgiven_refl (run : Run α) : Forgiven run run := fun _ => .inr rfl

theorem forgiven_bind_of {run run' : Run α} {f f' : α → Run β} (h : Forgiven run run')
    (hf : ∀ x st st', run st = (.ok x, st') → Forgiven (f x) (f' x)) :
    Forgiven (run >>= f) (run' >>= f') := by
  intro st
  rw [bind_apply, bind_apply]
  rcases h st with ⟨e, st', hr, he⟩ | hr
  · rw [hr]
    exact .inl ⟨e, st', rfl, he⟩
  · rw [← hr]
    rcases hx : run st with ⟨_ | x, st'⟩
    · exact .inr rfl
    · exact hf x st st' hx st'

theorem forgiven_bind {run run' : Run α} {f f' : α → Run β} (h : Forgiven run run')
    (hf : ∀ x, Forgiven (f x) (f' x)) : Forgiven (run >>= f) (run' >>= f') :=
  forgiven_bind_of h fun x _ _ _ => hf x

theorem forgiven_ofExcept {r r' : Except Error α} (h : Liquid.Forgiven r r') :
    Forgiven (ofExcept r) (ofExcept r') := by
  rcases h with ⟨e, rfl, he⟩ | rfl
  · exact fun st => .inl ⟨e, st, rfl, he⟩
  · exact forgiven_refl _

theorem forgiven_look (s : Setting) {f f' : View → Run α}
    (hf : ∀ view, Forgiven (f view) (f' view.lenient)) :
    Forgiven (look s >>= f) (look s.lenient >>= f') :=
  fun st => hf (s.view st) st

section

variable {run run' : Run Unit}

theorem forgiven_untilSignal (h : Forgiven run run') :
    Forgiven (untilSignal run) (untilSignal run') := by
  intro st
  unfold untilSignal
  rcases h st with ⟨e, st', hr, he⟩ | hr
  · rw [hr]
    exact .inl ⟨e, st', rfl, he⟩
  · rw [hr]
    exact .inr rfl

theorem forgiven_onError {run run' : Run α} (h : Forgiven run run') (tag : String) :
    Forgiven (onError (Error.withinTag tag) run) (onError (Error.withinTag tag) run') := by
  intro st
  unfold onError
  rcases h st with ⟨e, st', hr, he⟩ | hr
  · rw [hr]
    exact .inl ⟨_, st', rfl, (he.withinTag tag).symm ▸ he⟩
  · rw [hr]
    exact .inr rfl

theorem forgiven_captured (h : Forgiven run run') : Forgiven (captured run) (captured run') := by
  intro st
  rw [captured_apply, captured_apply]
  rcases h { st with output := "" } with ⟨e, st', hr, he⟩ | hr
  · rw [hr]
    exact .inl ⟨e, _, rfl, he⟩
  · rw [hr]
    exact .inr rfl

theorem forgiven_capturedToSignal (h : Forgiven run run') :
    Forgiven (capturedToSignal run) (capturedToSignal run') := by
  intro st
  rw [capturedToSignal_apply, capturedToSignal_apply]
  rcases h { st with output := "" } with ⟨e, st', hr, he⟩ | hr
  · rw [hr]
    exact .inl ⟨e, _, rfl, he⟩
  · rw [hr]
    exact .inr rfl

theorem forgiven_enter (h : Forgiven run run') (place : Option Place) :
    Forgiven (enter place run) (enter place run') := by
  intro st
  rw [enter_apply, enter_apply]
  rcases h { st with line := 0 } with ⟨e, st', hr, he⟩ | hr
  · rw [hr]
    exact .inl ⟨_, _, rfl, (he.positioned place st'.line).symm ▸ he⟩
  · rw [hr]
    exact .inr rfl

theorem forgiven_isolate {run run' : Run α} (h : Forgiven run run') (taken : Nat) :
    Forgiven (isolate taken run) (isolate taken run') := by
  intro st
  unfold isolate
  rcases h { st with locals := [], positions := .outside taken } with ⟨e, st', hr, he⟩ | hr
  · rw [hr]
    exact .inl ⟨e, _, rfl, he⟩
  · rw [hr]
    exact .inr rfl

theorem forgiven_visitAll {visit visit' : Int → Value → Run Unit}
    (h : ∀ position v, Forgiven (visit position v) (visit' position v)) (position : Int)
    (items : List Value) :
    Forgiven (visitAll visit position items) (visitAll visit' position items) := by
  induction items generalizing position with
  | nil => exact forgiven_refl _
  | cons v rest ih =>
    refine forgiven_bind (forgiven_untilSignal (h position v)) fun signal => ?_
    cases signal with
    | none => exact ih (position + 1)
    | some signal =>
      cases signal with
      | leave => exact forgiven_refl _
      | next => exact ih (position + 1)

theorem forgiven_forAll {visit visit' : Int → Value → Run Unit}
    (h : ∀ position v, Forgiven (visit position v) (visit' position v)) (position : Int)
    (items : List Value) :
    Forgiven (forAll visit position items) (forAll visit' position items) := by
  induction items generalizing position with
  | nil => exact forgiven_refl _
  | cons v rest ih => exact forgiven_bind (h position v) fun _ => ih (position + 1)

end

/-! ## What nodes find out -/

section

variable (s : Setting)

theorem forgiven_eval (e : Expr) : Forgiven (eval s e) (eval s.lenient e) :=
  forgiven_look s fun view => forgiven_ofExcept (e.forgiven_eval view _)

theorem forgiven_evalFiltered (e : Expr) (calls : List FilterCall) :
    Forgiven (evalFiltered s e calls) (evalFiltered s.lenient e calls) :=
  forgiven_look s fun view => forgiven_ofExcept (e.forgiven_evalFiltered view _ _ calls)

theorem forgiven_evalItems (e : Expr) : Forgiven (evalItems s e) (evalItems s.lenient e) :=
  forgiven_bind (forgiven_eval s e) fun _ => forgiven_refl _

theorem forgiven_evalCount (e : Option Expr) :
    Forgiven (evalCount s e) (evalCount s.lenient e) := by
  cases e with
  | none => exact forgiven_refl _
  | some e => exact forgiven_bind (forgiven_eval s e) fun _ => forgiven_refl _

theorem forgiven_loopItems (head : LoopHead) :
    Forgiven (loopItems s head) (loopItems s.lenient head) := by
  refine forgiven_bind (forgiven_evalItems s head.items) fun items => ?_
  refine forgiven_bind (forgiven_evalCount s head.offset) fun offset => ?_
  exact forgiven_bind (forgiven_evalCount s head.limit) fun limit => forgiven_refl _

theorem forgiven_evalBindings (bindings : List (String × Expr)) :
    Forgiven (evalBindings s bindings) (evalBindings s.lenient bindings) :=
  forgiven_look s fun view => forgiven_ofExcept (Expr.forgiven_evalNamed view _ bindings [])

theorem forgiven_evalArguments (arguments : List Expr) :
    Forgiven (evalArguments s arguments) (evalArguments s.lenient arguments) :=
  forgiven_look s fun view => forgiven_ofExcept (Expr.forgiven_evalAll view _ arguments)

theorem forgiven_evalGiven (what : Inclusion) (t : Loaded) :
    Forgiven (evalGiven s what t) (evalGiven s.lenient what t) := by
  refine forgiven_bind (forgiven_evalBindings s what.bindings) fun bindings => ?_
  cases what.given with
  | none => exact forgiven_refl _
  | some e => exact forgiven_bind (forgiven_eval s e) fun v => forgiven_refl _

theorem forgiven_beginItems (what : Inclusion) (e : Expr) :
    Forgiven (beginItems s what e) (beginItems s.lenient what e) := by
  refine forgiven_bind (forgiven_evalBindings s what.bindings) fun bindings => ?_
  exact forgiven_bind (forgiven_evalItems s e) fun items => forgiven_refl _

theorem forgiven_chooseBranch (otherwise : List Node) (branches : List (Branch Node)) :
    Forgiven (chooseBranch s otherwise branches) (chooseBranch s.lenient otherwise branches) := by
  induction branches with
  | nil => exact forgiven_refl _
  | cons b rest ih =>
    refine forgiven_bind (forgiven_eval s b.test) fun v => ?_
    split
    · exact forgiven_refl _
    · exact ih

theorem forgiven_chooseBody (negated : Bool) (test : Expr) (body : List Node)
    (branches : List (Branch Node)) (otherwise : List Node) :
    Forgiven (chooseBody s negated test body branches otherwise)
      (chooseBody s.lenient negated test body branches otherwise) := by
  refine forgiven_bind (forgiven_eval s test) fun v => ?_
  split
  · exact forgiven_refl _
  · exact forgiven_chooseBranch s otherwise branches

theorem forgiven_matchesAny (subject : Value) (values : List Expr) :
    Forgiven (matchesAny s subject values) (matchesAny s.lenient subject values) := by
  induction values with
  | nil => exact forgiven_refl _
  | cons e rest ih =>
    refine forgiven_bind (forgiven_eval s e) fun v => forgiven_bind (forgiven_refl _) fun b => ?_
    cases b with
    | false => exact ih
    | true => exact forgiven_refl _

theorem forgiven_chooseWhen (subject : Value) (otherwise : List Node) (whens : List (When Node)) :
    Forgiven (chooseWhen s subject otherwise whens)
      (chooseWhen s.lenient subject otherwise whens) := by
  induction whens with
  | nil => exact forgiven_refl _
  | cons w rest ih =>
    refine forgiven_bind (forgiven_matchesAny s subject w.values) fun b => ?_
    cases b with
    | false => exact ih
    | true => exact forgiven_refl _

theorem forgiven_findTemplate (deeper : Option Renderer) (tag : String) (e : Expr) :
    Forgiven (findTemplate deeper s tag e) (findTemplate deeper s.lenient tag e) := by
  refine forgiven_bind (forgiven_eval s e) fun v => ?_
  cases deeper <;> exact forgiven_refl _

end

/-! ## Nodes -/

/-- A renderer by which a strict rendering of the nodes does as a lenient one, until a name means
nothing. -/
def ForgivenBy (renderer : Renderer) (nodes : List Node) : Prop :=
  ∀ s : Setting, s.engine.Impartial → Forgiven (renderer s nodes) (renderer s.lenient nodes)

variable {s : Setting} {deeper : Option Renderer}

theorem renderer_of_findTemplate {tag : String} {e : Expr} {renderer : Renderer} {t : Loaded}
    {st st' : State} (h : findTemplate deeper s tag e st = (.ok (renderer, t), st')) :
    deeper = some renderer := by
  unfold findTemplate at h
  rw [bind_apply, eval_apply] at h
  cases hv : e.eval (s.view st) s.around.strict with
  | error e =>
    rw [hv] at h
    cases h
  | ok v =>
    rw [hv] at h
    cases deeper with
    | none => cases h
    | some renderer' =>
      change (fetch s tag v.toText >>= fun t => pure (renderer', t)) st = _ at h
      rw [bind_apply] at h
      rcases hf : fetch s tag v.toText st with ⟨_ | u, st''⟩
      · rw [hf] at h
        cases h
      · rw [hf] at h
        cases h
        rfl

theorem forgiven_renderTemplate {renderer : Renderer} {t : Loaded}
    (h : ForgivenBy renderer t.nodes) (hs : s.engine.Impartial) :
    Forgiven (renderTemplate renderer s t) (renderTemplate renderer s.lenient t) := by
  intro st
  exact forgiven_enter (h { s with place := some (placeOf s st.line t) } hs) _ st

theorem forgiven_include (hd : ∀ renderer nodes, deeper = some renderer → ForgivenBy renderer nodes)
    (hs : s.engine.Impartial) (what : Inclusion) (each : Option Expr) :
    Forgiven (includeTemplate deeper s what each) (includeTemplate deeper s.lenient what each) := by
  refine forgiven_bind_of (forgiven_findTemplate s deeper "include" what.template) ?_
  intro found st st' hf
  obtain ⟨renderer, t⟩ := found
  have hr := hd renderer t.nodes (renderer_of_findTemplate hf)
  cases each with
  | none =>
    refine forgiven_bind (forgiven_evalGiven s what t) fun bindings => ?_
    exact forgiven_renderTemplate (s := s.push bindings) hr hs
  | some e =>
    refine forgiven_bind (forgiven_beginItems s what e) fun begun => ?_
    refine forgiven_forAll (fun position v => ?_) 0 begun.2.1
    refine forgiven_bind (forgiven_refl _) fun _ => ?_
    exact forgiven_renderTemplate (s := s.push _) hr hs

theorem forgiven_alone (hd : ∀ renderer nodes, deeper = some renderer → ForgivenBy renderer nodes)
    (hs : s.engine.Impartial) (what : Inclusion) :
    Forgiven (renderAlone deeper s what) (renderAlone deeper s.lenient what) := by
  refine forgiven_bind_of (forgiven_findTemplate s deeper "render" what.template) ?_
  intro found st st' hf
  obtain ⟨renderer, t⟩ := found
  have hr := hd renderer t.nodes (renderer_of_findTemplate hf)
  refine forgiven_bind (forgiven_evalGiven s what t) fun bindings => ?_
  exact forgiven_isolate (forgiven_renderTemplate (s := s.within (.isolated bindings)) hr hs) _

theorem forgiven_program {body body' : Surrounding → Run (String × Option Signal)}
    (hb : ∀ where_, Forgiven (body where_) (body' where_)) {p : Program} (hp : p.Impartial)
    (pending : Option Signal) :
    Forgiven (program s body p pending) (program s.lenient body' p pending) := by
  induction hp generalizing pending with
  | done v => exact forgiven_refl _
  | fail e => exact forgiven_refl _
  | body _ ih =>
    cases pending with
    | none => exact forgiven_bind (hb _) fun r => ih r.1 r.2
    | some signal => exact ih "" (some signal)
  | look hn _ ih =>
    refine forgiven_look s fun view => ?_
    rw [hn]
    exact ih view pending
  | assign _ ih => exact forgiven_bind (forgiven_refl _) fun _ => ih pending

theorem forgiven_inSurrounding (where_ : Surrounding) {run : Setting → Run α}
    (h : Forgiven (run (s.within where_)) (run (s.within where_).lenient)) :
    Forgiven (inSurrounding s where_ run) (inSurrounding s.lenient where_ run) := by
  cases where_ with
  | here | inside frame => exact h
  | isolated data => exact forgiven_isolate h _

theorem forgiven_hostTag (hs : s.engine.Impartial) (name : String) (arguments : List Expr)
    {body body' : Surrounding → Run (String × Option Signal)}
    (hb : ∀ where_, Forgiven (body where_) (body' where_)) :
    Forgiven (hostTag s name arguments body) (hostTag s.lenient name arguments body') := by
  unfold hostTag
  rw [Setting.engine_lenient]
  cases ht : s.engine.tags.get? name with
  | none => exact forgiven_refl _
  | some tag =>
    refine forgiven_bind (forgiven_evalArguments s arguments) fun values => ?_
    refine forgiven_bind ?_ fun r => forgiven_refl _
    exact forgiven_onError (forgiven_program hb (hs name tag ht values) none) name

/-- A node whose bodies do so does as a lenient rendering, until a name means nothing. -/
theorem forgiven_node (hd : ∀ renderer nodes, deeper = some renderer → ForgivenBy renderer nodes)
    (hs : s.engine.Impartial) {n : Node}
    (hb : ∀ body ∈ n.bodies, ForgivenBy (renderNodes deeper) body) :
    Forgiven (renderNode deeper s n) (renderNode deeper s.lenient n) := by
  cases n with
  | text pos text | raw pos text | comment pos text | signal pos signal =>
    rw [renderNode, renderNode]
    exact forgiven_refl _
  | output pos e filters left right =>
    cases e with
    | none =>
      rw [renderNode, renderNode]
      exact forgiven_refl _
    | some e =>
      rw [renderNode, renderNode]
      exact forgiven_bind (forgiven_evalFiltered s e filters) fun v => forgiven_refl _
  | conditional pos negated test body branches otherwise =>
    rw [renderNode_conditional, renderNode_conditional]
    refine forgiven_bind_of (forgiven_chooseBody s negated test body branches otherwise) ?_
    intro chosen st st' hc
    exact hb chosen (mem_bodies_of_chooseBody hc) s hs
  | loop pos head body otherwise =>
    rw [renderNode, renderNode]
    refine forgiven_bind (forgiven_loopItems s head) fun items => ?_
    cases items with
    | nil => exact hb otherwise (.tail _ (.head _)) s hs
    | cons v rest =>
      refine forgiven_look s fun view => ?_
      refine forgiven_bind (forgiven_refl _) fun l => ?_
      refine forgiven_visitAll (fun position v => ?_) 0 (v :: rest)
      exact forgiven_bind (forgiven_refl _) fun _ => hb body (.head _) (s.push _) hs
  | choice pos subject whens otherwise =>
    rw [renderNode_choice, renderNode_choice, bind_assoc, bind_assoc]
    refine forgiven_bind (forgiven_eval s subject) fun v => ?_
    refine forgiven_bind_of (forgiven_chooseWhen s v otherwise whens) ?_
    intro chosen st st' hc
    exact hb chosen (mem_bodies_of_chooseWhen hc) s hs
  | assign pos name e filters =>
    rw [renderNode, renderNode]
    exact forgiven_bind (forgiven_evalFiltered s e filters) fun v => forgiven_refl _
  | capture pos name body =>
    rw [renderNode, renderNode]
    exact forgiven_bind (forgiven_captured (hb body (.head _) s hs)) fun text => forgiven_refl _
  | «include» pos what each =>
    rw [renderNode, renderNode]
    exact forgiven_include hd hs what each
  | render pos what =>
    rw [renderNode, renderNode]
    exact forgiven_alone hd hs what
  | tag pos name arguments body markup =>
    rw [renderNode, renderNode]
    refine forgiven_hostTag hs name arguments fun where_ => forgiven_inSurrounding where_ ?_
    refine forgiven_capturedToSignal (hb body (.head _) (s.within where_) ?_)
    cases where_ <;> exact hs

theorem forgiven_of_deeper
    (hd : ∀ renderer nodes, deeper = some renderer → ForgivenBy renderer nodes)
    (nodes : List Node) : ForgivenBy (renderNodes deeper) nodes := by
  induction nodes using Node.induction_bodies with
  | h nodes ihb =>
    intro s hs
    induction nodes with
    | nil =>
      rw [renderNodes_nil, renderNodes_nil]
      exact forgiven_refl _
    | cons n rest ih =>
      obtain ⟨hn, hrest⟩ := List.forall_mem_cons.1 ihb
      rw [renderNodes_cons, renderNodes_cons]
      refine forgiven_bind (forgiven_refl _) fun _ => ?_
      exact forgiven_bind (forgiven_node hd hs hn) fun _ => ih hrest

/-- A strict rendering of nodes does as a lenient one, until a name means nothing. -/
theorem forgiven_nodes (k : Nat) (nodes : List Node) :
    ForgivenBy (renderNodes (below k)) nodes := by
  induction k generalizing nodes with
  | zero =>
    refine forgiven_of_deeper (fun renderer nodes hr => ?_) nodes
    cases hr
  | succ k ih =>
    refine forgiven_of_deeper (fun renderer nodes hr => ?_) nodes
    cases hr
    exact ih nodes

end Run

namespace Environment

variable {env : Environment}

/-- What a rendering gives when its run has come to an end. -/
def given (r : Except Stop Unit × State) : Except Error String :=
  (ended r.1).map fun _ => r.2.output

theorem forgiven_given {run run' : Run Unit} (h : run.Forgiven run') (st : State) :
    Forgiven (given (run st)) (given (run' st)) := by
  rcases h st with ⟨e, st', hr, he⟩ | hr
  · rw [hr]
    exact .inl ⟨e, rfl, he⟩
  · rw [hr]
    exact .refl _

theorem forgiven_render (h : env.engine.Impartial) (t : Template) (data : Bindings) :
    Forgiven ({ env with strict := true }.render t data).1
      ({ env with strict := false }.render t data).1 := by
  have hn := Run.forgiven_nodes env.levels t.nodes
    ({ env with strict := true }.setting data (some (env.placeOf t))) h
  exact forgiven_given (Run.forgiven_enter hn (some (env.placeOf t)))
    (env.start (env.setting data (some (env.placeOf t))))

/-- Where no tag of the host depends on it, that names must mean something only adds errors: the
text of a strict rendering is that of the lenient one, and a strict rendering that fails comes to a
name that means nothing, unless the lenient one fails with the same error. -/
theorem strict_adds_errors (h : env.engine.Impartial) (t : Template) (data : Bindings) :
    let strict := ({ env with strict := true }.render t data).1
    let lenient := ({ env with strict := false }.render t data).1
    (∀ text, strict = .ok text → lenient = .ok text) ∧
      ∀ e, strict = .error e → e.Undefined ∨ lenient = .error e := by
  intro strict lenient
  have hf : Forgiven strict lenient := forgiven_render h t data
  rcases hf with ⟨e, he, hu⟩ | heq
  · refine ⟨fun text ht => ?_, fun f hf => .inl ?_⟩
    · rw [he] at ht
      cases ht
    · rw [he] at hf
      cases hf
      exact hu
  · rw [heq]
    exact ⟨fun text ht => ht, fun e he => .inr he⟩

/-- A tag that renders its body where the name of whoever is greeted is bound. -/
def greetingTag : HostTag where
  block := true
  run _ := .look fun view =>
    .body (.inside [("name", view.lookup "guest")]) fun text => .text ("Dear " ++ text)

/-- An environment with this tag. -/
def greeting : Environment where
  engine := { loader := none, filters := {}, tags := { overrides := [("greet", greetingTag)] } }
  globals := []
  strict := false
  maxDepth := 1
  shelf := { cache := { maxSize := 0, label := "" } }

/-- The template `{% greet %}{{ name }}{% endgreet %}`. -/
def greetingTemplate : Template where
  source := "\x7b% greet %\x7d\x7b\x7b name \x7d\x7d\x7b% endgreet %\x7d"
  name := none
  filename := none
  nodes :=
    [.tag ⟨3, 1, 3⟩ "greet" []
      [.output ⟨11, 1, 11⟩ (some (.name ⟨14, 1, 14⟩ "name")) [] false false] ""]

/-- Where the guest is known, both renderings greet; where not, the strict one fails and the lenient
one does not. -/
theorem strict_adds_errors_greeting :
    greeting.engine.Impartial ∧
      ({ greeting with strict := true }.render greetingTemplate [("guest", .text "Ann")]).1 =
        .ok "Dear Ann" ∧
      ({ greeting with strict := false }.render greetingTemplate [("guest", .text "Ann")]).1 =
        .ok "Dear Ann" ∧
      (∃ e, ({ greeting with strict := true }.render greetingTemplate []).1 = .error e ∧
        e.Undefined) ∧
      ({ greeting with strict := false }.render greetingTemplate []).1 = .ok "Dear " := by
  have h : greeting.engine.Impartial := by
    intro name tag ht values
    have ht' : tag = greetingTag := by
      simp only [greeting, Registry.get?, List.lookup_cons, List.lookup_nil] at ht
      split at ht <;> simp_all
    rw [ht']
    exact .look (fun view => rfl) fun view => .body fun text => .done _
  have hs : ({ greeting with strict := true }.render greetingTemplate [("guest", .text "Ann")]).1 =
      .ok "Dear Ann" := by
    cbv
  have hl : ({ greeting with strict := false }.render greetingTemplate []).1 = .ok "Dear " := by cbv
  refine ⟨h, hs, (strict_adds_errors h greetingTemplate _).1 _ hs, ?_, hl⟩
  have hn : ({ greeting with strict := true }.render greetingTemplate []).1.toOption = none := by
    cbv
  cases hf : ({ greeting with strict := true }.render greetingTemplate []).1 with
  | ok text =>
    rw [hf] at hn
    cases hn
  | error e =>
    refine ⟨e, rfl, ?_⟩
    rcases (strict_adds_errors h greetingTemplate []).2 e hf with hu | he
    · exact hu
    · rw [hl] at he
      cases he

end Environment

end Liquid
