import Liquid.Proofs.Rendering.Alike
import Liquid.Proofs.Rendering.Depth
import Liquid.Proofs.Rendering.Frames
import Mathlib

/-!
# A template by itself

A template that is rendered by itself does what it does when the host renders it, with the bindings
of the tag for data.  It sees nothing of the template around it but the place that it has there, and
that shows in errors and in the limit of depth only.

**Twins.** Two renderings go step by step side by side: the one within another template, above a
stack of its own, the other from the start of the template.

* `twins_step`: a step of the second is matched by a step of the first.
* `render_alone`: a tag that renders a template by itself writes what the host would get, fails where
  the host would, and leaves the names as they are.
-/
namespace Liquid

/-! ## Tags that do not look at the place -/

/-- A program that sees the names and the loops, but neither the place nor the line. -/
inductive Program.Blind : Program → Prop where
  | done (v : Value) : Blind (.done v)
  | fail (e : Error) : Blind (.fail e)
  | body {where_ next} : (∀ text, Blind (next text)) → Blind (.body where_ next)
  | look {next} :
    (∀ v w : View, v.Alike w → next v = next w) → (∀ v, Blind (next v)) → Blind (.look next)
  | assign {name v next} : Blind next → Blind (.assign name v next)

/-- No tag of the host looks at the place. -/
def Engine.Blind (engine : Engine) : Prop :=
  ∀ name tag values, engine.tags.get? name = some tag → (tag.run values).Blind

/-- Surroundings in which the globals of an environment are visible. -/
def Environment.Holds (env : Environment) (s : Surroundings) : Prop :=
  s.globals = env.globals ∧ s.strict = env.strict

namespace Environment.Holds

variable {env : Environment} {s : Surroundings}

theorem bind (h : env.Holds s) (name : String) (v : Value) : env.Holds (s.bind name v) := by
  unfold Surroundings.bind
  split
  · exact h
  · exact h

end Environment.Holds

/-- A template that the loader gives is the one that an environment gets. -/
theorem Environment.get_of_load (env : Environment) (ha : env.engine.Agrees env.shelf)
    {name : String} {t : Template} (ht : env.engine.load name = .ok t) :
    ∃ u shelf, env.get name = (.ok u, { env with shelf }) ∧ u.toTemplate = t ∧
      env.engine.Agrees shelf := by
  have hq := Engine.toTemplate_fetch ha name
  have hs := Engine.agrees_fetch ha name
  unfold get
  generalize env.engine.fetch name env.shelf = r at hq hs
  rcases r with ⟨f | u, shelf⟩
  · rw [ht] at hq
    cases hq
  · exact ⟨u, shelf, rfl, Except.ok.inj (hq.trans ht), hs⟩

namespace Machine

/-! ## Twins -/

/-- A stack above a base, and the stack of a twin above nothing.  What has been put aside of the
output is the same but for the text that stood there before, which stands before the output of the
lowest level. -/
inductive Stacks (env : Environment) (base : List Frame) (before : String) :
    String → List Frame → List Frame → Prop where
  | base : Stacks env base before before base []
  | behind {now stack stack' nodes} :
    Stacks env base before now stack stack' →
    Stacks env base before now (.behind nodes :: stack) (.behind nodes :: stack')
  | block {now stack stack'} :
    Stacks env base before now stack stack' →
    Stacks env base before now (.block :: stack) (.block :: stack')
  | isolation {now stack stack' around locals positions} :
    env.Holds around → Stacks env base before now stack stack' →
    Stacks env base before now (.isolation around locals positions :: stack)
      (.isolation around locals positions :: stack')
  | template {now stack stack' place place' line} :
    Stacks env base before now stack stack' →
    Stacks env base before now (.template place line :: stack) (.template place' line :: stack')
  | visits {now stack stack' l target body position items} :
    Stacks env base before now stack stack' →
    Stacks env base before now (.visits l target body position items :: stack)
      (.visits l target body position items :: stack')
  | items {now stack stack' l called t t' position items} :
    Run.SameTemplate t t' → Stacks env base before now stack stack' →
    Stacks env base before now (.items l called t position items :: stack)
      (.items l called t' position items :: stack')
  | captured {now stack stack' name output} :
    Stacks env base before now stack stack' →
    Stacks env base before "" (.captured name (now ++ output) :: stack)
      (.captured name output :: stack')
  | host {now stack stack' tag body next output} :
    (∀ text, (next text).Blind) → Stacks env base before now stack stack' →
    Stacks env base before "" (.host tag body next (now ++ output) :: stack)
      (.host tag body next output :: stack')

/-- What twins do at present. -/
inductive Controls : Control → Control → Prop where
  | nodes (nodes : List Node) : Controls (.nodes nodes) (.nodes nodes)
  | node (n : Node) : Controls (.node n) (.node n)
  | template {t t'} : Run.SameTemplate t t' → Controls (.template t) (.template t')
  | program {tag body p pending} :
    p.Blind → Controls (.program tag body p pending) (.program tag body p pending)
  | done : Controls (.ended (.ok ())) (.ended (.ok ()))
  | stopped {stop stop'} :
    stop.Alike stop' → Controls (.ended (.error stop)) (.ended (.error stop'))

/-- Two machines with the same names and the same loops, whatever they do at present. -/
structure Beside (env : Environment) (base : List Frame) (before now : String) (a b : Machine) :
    Prop where
  around : a.around = b.around
  holds : env.Holds a.around
  state : a.state.Alike env.engine now b.state
  stack : Stacks env base before now a.stack b.stack

/-- Two machines that go side by side. -/
structure Twins (env : Environment) (base : List Frame) (before : String) (a b : Machine) :
    Prop where
  control : Controls a.control b.control
  beside : ∃ now, Beside env base before now a b

variable {env : Environment} {base : List Frame} {before now : String} {a b b' : Machine}

theorem Beside.twins (h : Beside env base before now a b) {c c' : Control} (hc : Controls c c') :
    Twins env base before { a with control := c } { b with control := c' } :=
  ⟨hc, now, h.around, h.holds, h.state, h.stack⟩

theorem twins_perform {α : Type} {rel : α → α → Prop} {run run' : Run α}
    {next next' : Machine → α → Machine} (h : Beside env base before now a b)
    (hr : Run.Results env.engine now rel (run a.state) (run' b.state))
    (hn : ∀ x y st su, rel x y →
      Beside env base before now { a with state := st } { b with state := su } →
      Twins env base before (next { a with state := st } x) (next' { b with state := su } y)) :
    Twins env base before (a.perform run next) (b.perform run' next') := by
  unfold perform
  generalize run a.state = r at hr
  generalize run' b.state = r' at hr
  cases hr with
  | ok hx hs => exact hn _ _ _ _ hx ⟨h.around, h.holds, hs, h.stack⟩
  | error he hs => exact ⟨.stopped he, now, h.around, h.holds, hs, h.stack⟩

theorem twins_perform_eq {α : Type} {run run' : Run α} {next next' : Machine → α → Machine}
    (h : Beside env base before now a b) (hr : Run.Matches env.engine Eq run run')
    (hn : ∀ x st su, Beside env base before now { a with state := st } { b with state := su } →
      Twins env base before (next { a with state := st } x) (next' { b with state := su } x)) :
    Twins env base before (a.perform run next) (b.perform run' next') := by
  refine twins_perform h (hr now _ _ h.state) ?_
  rintro x _ st su rfl h
  exact hn x st su h

theorem twins_done {run run' : Run Unit} (h : Beside env base before now a b)
    (hr : Run.Matches env.engine Eq run run') :
    Twins env base before (a.perform run fun m () => m.done) (b.perform run' fun m () => m.done) :=
  twins_perform_eq h hr fun _ _ _ h => h.twins .done

/-! ## Nodes -/

theorem Beside.openBlock (h : Beside env base before now a b) (frame : Bindings) :
    Beside env base before now (a.openBlock frame) (b.openBlock frame) :=
  ⟨congrArg (·.push frame) h.around, h.holds, h.state, .block h.stack⟩

theorem Beside.collect (h : Beside env base before now a b) {f : String → Frame}
    (hf : ∀ output, Stacks env base before "" (f (now ++ output) :: a.stack)
      (f output :: b.stack)) :
    Beside env base before "" (a.collect f) (b.collect f) := by
  refine ⟨h.around, h.holds, { h.state with output := rfl }, ?_⟩
  have hs := hf b.state.output
  rw [← h.state.output] at hs
  exact hs

theorem Beside.isolate (h : Beside env base before now a b) (data : Bindings) :
    Beside env base before now (a.isolate data) (b.isolate data) where
  around := congrArg (·.isolated data) h.around
  holds := h.holds
  state := { h.state with
    locals := rfl
    positions := congrArg (fun s : Surroundings => Positions.outside (s.isolated data).loopBound) h.around }
  stack := by
    simp only [Machine.isolate, wait, h.around, h.state.locals, h.state.positions]
    exact .isolation (h.around ▸ h.holds) h.stack

theorem Beside.like (h : Beside env base before now a b) : a.around.Like b.around := .of_eq h.around

/-- The engine finds the same template for both, if it finds one. -/
theorem Beside.find (h : Beside env base before now a b) {e : Expr}
    (hl : ∀ v, e.eval a.view a.around.strict = .ok v →
      (levelsAt a.place = 0 ↔ levelsAt b.place = 0)) (tag : String) :
    Run.Results env.engine now Run.SameTemplate (Run.find (a.setting env.engine) tag e a.state)
      (Run.find (b.setting env.engine) tag e b.state) := by
  refine Run.results_find h.like ?_ ?_ h.state ?_ tag
  · rfl
  · rfl
  · exact hl

theorem twins_include (h : Beside env base before now a b) {what : Inclusion}
    (hl : ∀ v, what.template.eval a.view a.around.strict = .ok v →
      (levelsAt a.place = 0 ↔ levelsAt b.place = 0)) (pos : Position) (each : Option Expr) :
    Twins env base before (a.node env.engine (.include pos what each))
      (b.node env.engine (.include pos what each)) := by
  simp only [node]
  refine twins_perform h (h.find hl "include") ?_
  intro t t' st su ht h
  have ha : Run.aliasIn what t = Run.aliasIn what t' := by
    rw [Run.aliasIn, Run.aliasIn, congrArg Template.name ht]
  cases each with
  | none =>
    refine twins_perform_eq h (Run.matches_evalGiven h.like what ht) ?_
    intro bindings st su h
    exact (h.openBlock bindings).twins (.template ht)
  | some e =>
    refine twins_perform_eq h (Run.matches_beginItems h.like what e) ?_
    intro r st su h
    have ho := h.openBlock r.1
    rw [ha]
    exact ⟨.done, now, ho.around, ho.holds, ho.state, .items ht ho.stack⟩

theorem twins_alone (h : Beside env base before now a b) {what : Inclusion}
    (hl : ∀ v, what.template.eval a.view a.around.strict = .ok v →
      (levelsAt a.place = 0 ↔ levelsAt b.place = 0)) (pos : Position) :
    Twins env base before (a.node env.engine (.render pos what))
      (b.node env.engine (.render pos what)) := by
  simp only [node]
  refine twins_perform h (h.find hl "render") ?_
  intro t t' st su ht h
  refine twins_perform_eq h (Run.matches_evalGiven h.like what ht) ?_
  intro bindings st su h
  exact (h.isolate bindings).twins (.template ht)

theorem twins_loop (h : Beside env base before now a b) (pos : Position) (head : LoopHead)
    (body otherwise : List Node) :
    Twins env base before (a.node env.engine (.loop pos head body otherwise))
      (b.node env.engine (.loop pos head body otherwise)) := by
  simp only [node]
  refine twins_perform_eq h (Run.matches_loopItems h.like head) ?_
  intro items st su h
  cases items with
  | nil => exact h.twins (.nodes otherwise)
  | cons v rest =>
    refine twins_perform_eq h (Run.matches_bind (Run.matches_look h.like) ?_) ?_
    · intro x y hv
      rw [Run.enclosingLoop, Run.enclosingLoop, hv]
      exact Run.matches_beginLoop _ _
    · intro l st su h
      have ho := h.openBlock [("forloop", .loop l)]
      exact ⟨.done, now, ho.around, ho.holds, ho.state, .visits ho.stack⟩

theorem twins_node (hb : env.engine.Blind) (h : Beside env base before now a b) (n : Node)
    (hl : ∀ e v, n.target? = some e → e.eval a.view a.around.strict = .ok v →
      (levelsAt a.place = 0 ↔ levelsAt b.place = 0)) :
    Twins env base before (a.node env.engine n) (b.node env.engine n) := by
  cases n with
  | text pos text | raw pos text => exact twins_done h (Run.matches_write text)
  | assign pos name e filters =>
    refine twins_done h (Run.matches_bind (Run.matches_evalFiltered h.like ?_ e filters) ?_)
    · rfl
    · rintro v _ rfl
      exact Run.matches_assign name v
  | comment pos text => exact h.twins .done
  | signal pos signal => exact h.twins (.stopped (.signal signal))
  | capture pos name body =>
    exact (h.collect fun output => .captured h.stack).twins (.nodes body)
  | output pos e filters standalone source =>
    cases e with
    | none => exact h.twins .done
    | some e =>
      refine twins_done h (Run.matches_bind (Run.matches_evalFiltered h.like ?_ e filters) ?_)
      · rfl
      · rintro v _ rfl
        exact Run.matches_write v.toText
  | conditional pos negated test body branches otherwise =>
    exact twins_perform_eq h (Run.matches_chooseBody h.like negated test body branches otherwise)
      fun chosen _ _ h => h.twins (.nodes chosen)
  | choice pos subject whens otherwise =>
    refine twins_perform_eq h (Run.matches_bind (Run.matches_eval h.like subject) ?_)
      fun chosen _ _ h => h.twins (.nodes chosen)
    rintro v _ rfl
    exact Run.matches_chooseWhen h.like v otherwise whens
  | loop pos head body otherwise => exact twins_loop h pos head body otherwise
  | «include» pos what each => exact twins_include h (fun v => hl _ v rfl) pos each
  | render pos what => exact twins_alone h (fun v => hl _ v rfl) pos
  | tag pos name arguments body markup =>
    simp only [node]
    cases ht : env.engine.tags.get? name with
    | none => exact twins_done h (Run.matches_unknownTag name)
    | some tag =>
      exact twins_perform_eq h (Run.matches_evalArguments h.like arguments) fun values _ _ h =>
        h.twins (.program (hb name tag values ht))

/-! ## Steps -/

theorem twins_enter (h : Beside env base before now a b) {t t' : Loaded}
    (ht : Run.SameTemplate t t') :
    Twins env base before (a.enter env.engine t) (b.enter env.engine t') := by
  refine ⟨?_, now, h.around, h.holds, { h.state with line := rfl }, ?_⟩
  · change Controls (.nodes t.nodes) (.nodes t'.nodes)
    rw [congrArg Template.nodes ht]
    exact .nodes _
  · simp only [enter, wait, h.state.line]
    exact .template h.stack

theorem twins_program (h : Beside env base before now a b) (tag : String) (body : List Node)
    {p : Program} (hp : p.Blind) (pending : Option Signal) :
    Twins env base before (a.program env.engine tag body p pending)
      (b.program env.engine tag body p pending) := by
  cases hp with
  | done v =>
    simp only [program]
    refine twins_perform_eq h (Run.matches_write v.toText) fun _ _ _ h => ?_
    cases pending with
    | none => exact h.twins .done
    | some signal => exact h.twins (.stopped (.signal signal))
  | fail e => exact h.twins (.stopped (.error _ _))
  | look hv hn =>
    have hw : ((a.setting env.engine).view a.state).Alike ((b.setting env.engine).view b.state) :=
      ⟨by simp only [Setting.view, setting, h.around, h.state.locals], h.state.positions⟩
    simp only [program, hv _ _ hw]
    exact h.twins (.program (hn _))
  | assign hn =>
    simp only [program]
    exact twins_perform_eq h (Run.matches_assign _ _) fun _ _ _ h => h.twins (.program hn)
  | @body where_ next hn =>
    cases pending with
    | some signal => exact h.twins (.program (hn ""))
    | none =>
      have hc : Beside env base before "" (a.collect (.host tag body next))
          (b.collect (.host tag body next)) := h.collect fun output => .host hn h.stack
      cases where_ with
      | here => exact hc.twins (.nodes body)
      | inside frame => exact (hc.openBlock frame).twins (.nodes body)
      | isolated data => exact (hc.isolate data).twins (.nodes body)

/-- What was put aside of the output is put back. -/
theorem Beside.restore {inner : String} (output : String) (ha : a.around = b.around)
    (hh : env.Holds a.around) (hst : a.state.Alike env.engine inner b.state)
    (hs : Stacks env base before now a.stack b.stack) :
    Beside env base before now { a with state := { a.state with output := now ++ output } }
      { b with state := { b.state with output } } :=
  ⟨ha, hh, { hst with output := rfl }, hs⟩

theorem Beside.nextVisit (h : Beside env base before now a b) (l : Loop) (target : String)
    (body : List Node) (position : Int) (v : Value) (rest : List Value) :
    Twins env base before
      (a.perform (Run.moveTo l position) fun m () =>
        ({ m with around := m.around.bind target v }.wait
          (.visits l target body (position + 1) rest)).goOn body)
      (b.perform (Run.moveTo l position) fun m () =>
        ({ m with around := m.around.bind target v }.wait
          (.visits l target body (position + 1) rest)).goOn body) :=
  twins_perform_eq h (Run.matches_moveTo l position) fun _ _ _ h =>
    ⟨.nodes body, now, congrArg (·.bind target v) h.around, h.holds.bind target v, h.state,
      .visits h.stack⟩

theorem twins_resume {f f' : Frame} {how how' : Except Stop Unit} (ha : a.around = b.around)
    (hh : env.Holds a.around) (hst : a.state.Alike env.engine now b.state)
    (hs : Stacks env base before now (f :: a.stack) (f' :: b.stack))
    (hc : Controls (.ended how) (.ended how')) :
    Twins env base before (a.resume how f) (b.resume how' f') := by
  generalize hx : f :: a.stack = stack at hs
  generalize hy : f' :: b.stack = stack' at hs
  cases hs with
  | base => cases hy
  | behind hs =>
    cases hx
    cases hy
    have h : Beside env base before now a b := ⟨ha, hh, hst, hs⟩
    cases hc with
    | done => exact h.twins (.nodes _)
    | stopped he => exact h.twins (.stopped he)
  | block hs =>
    cases hx
    cases hy
    exact ⟨hc, now, congrArg Surroundings.pop ha, hh, hst, hs⟩
  | isolation hi hs =>
    cases hx
    cases hy
    exact ⟨hc, now, rfl, hi, { hst with locals := rfl, positions := rfl }, hs⟩
  | template hs =>
    cases hx
    cases hy
    refine ⟨?_, now, ha, hh, { hst with line := rfl }, hs⟩
    cases hc with
    | done => exact .done
    | stopped he => exact .stopped (.error _ _)
  | @captured _ _ _ name output hs =>
    cases hx
    cases hy
    have ht : a.state.output = b.state.output := by simpa using hst.output
    have h := Beside.restore output ha hh hst hs
    cases hc with
    | done =>
      simp only [resume, ht]
      exact twins_done h (Run.matches_assign _ _)
    | stopped he => exact h.twins (.stopped he)
  | @host _ _ _ tag body next output hn hs =>
    cases hx
    cases hy
    have ht : a.state.output = b.state.output := by simpa using hst.output
    have h := Beside.restore output ha hh hst hs
    cases hc with
    | done =>
      simp only [resume, ht]
      exact h.twins (.program (hn _))
    | stopped he =>
      cases he with
      | signal sg =>
        simp only [resume, ht]
        exact h.twins (.program (hn _))
      | error e f => exact h.twins (.stopped (.error _ _))
  | @visits _ _ _ l target body position items hs =>
    cases hx
    cases hy
    have h : Beside env base before now a b := ⟨ha, hh, hst, hs⟩
    have hv (v : Value) (rest : List Value) := h.nextVisit l target body position v rest
    cases hc with
    | done => cases items with
      | nil => exact h.twins .done
      | cons v rest => exact hv v rest
    | stopped he =>
      cases he with
      | error e f => exact h.twins (.stopped (.error e f))
      | signal sg =>
        cases sg with
        | leave => exact h.twins .done
        | next => cases items with
          | nil => exact h.twins .done
          | cons v rest => exact hv v rest
  | @items _ _ _ l called t t' position items ht hs =>
    cases hx
    cases hy
    have h : Beside env base before now a b := ⟨ha, hh, hst, hs⟩
    cases hc with
    | stopped he => exact h.twins (.stopped he)
    | done => cases items with
      | nil => exact h.twins .done
      | cons v rest =>
        simp only [resume]
        refine twins_perform_eq h (Run.matches_moveTo l position) fun _ st su h => ?_
        exact ⟨.template ht, now, congrArg (·.bind called v) h.around, h.holds.bind called v, h.state,
          .items ht h.stack⟩

theorem twins_pop {how how' : Except Stop Unit} (h : Beside env base before now a b)
    (hc : Controls (.ended how) (.ended how')) {f' : Frame} {rest' : List Frame}
    (hst : b.stack = f' :: rest') :
    ∃ f rest, a.stack = f :: rest ∧
      Twins env base before ({ a with stack := rest }.resume how f)
        ({ b with stack := rest' }.resume how' f') := by
  have hs := h.stack
  rw [hst] at hs
  obtain ⟨f, rest, hf⟩ : ∃ f rest, a.stack = f :: rest := by
    generalize a.stack = stack at hs
    cases hs <;> exact ⟨_, _, rfl⟩
  rw [hf] at hs
  exact ⟨f, rest, hf, twins_resume h.around h.holds h.state hs hc⟩

/-- A machine at a tag that names one more template than may be nested. -/
def Refuses (m : Machine) : Prop :=
  levelsAt m.place = 0 ∧ ∃ n e v,
    m.control = .node n ∧ n.target? = some e ∧ e.eval m.view m.around.strict = .ok v

theorem Beside.levels (h : Beside env base before now a b) {n : Node}
    (hr : a.Refuses ↔ b.Refuses) (ha : a.control = .node n) (hb : b.control = .node n) (e : Expr)
    (v : Value) (ht : n.target? = some e) (hv : e.eval a.view a.around.strict = .ok v) :
    levelsAt a.place = 0 ↔ levelsAt b.place = 0 := by
  have hw : a.view.Alike b.view :=
    ⟨by simp only [view, scope, h.around, h.state.locals], h.state.positions⟩
  have hq := hw.sees.toOption_eval a.around.strict e
  rw [hv] at hq
  cases hv' : e.eval b.view a.around.strict with
  | error f => rw [hv'] at hq; cases hq
  | ok w =>
    rw [h.around] at hv'
    exact ⟨fun h0 => (hr.1 ⟨h0, n, e, v, ha, ht, hv⟩).1, fun h0 => (hr.2 ⟨h0, n, e, w, hb, ht, hv'⟩).1⟩

/-- A step of a machine is matched by a step of its twin, as long as not just one of them has
reached the limit of depth. -/
theorem twins_step (hb : env.engine.Blind) (h : Twins env base before a b)
    (hr : a.Refuses ↔ b.Refuses) (hs : b.step env.engine = some b') :
    ∃ a', a.step env.engine = some a' ∧ Twins env base before a' b' := by
  obtain ⟨hc, now, h⟩ := h
  generalize hca : a.control = ca at hc
  generalize hcb : b.control = cb at hc
  unfold step at hs ⊢
  rw [hcb] at hs
  rw [hca]
  cases hc with
  | nodes nodes =>
    cases nodes with
    | nil =>
      cases hs
      exact ⟨_, rfl, h.twins .done⟩
    | cons n rest =>
      cases hs
      exact ⟨_, rfl, .node n, now, h.around, h.holds, { h.state with line := rfl }, .behind h.stack⟩
  | node n =>
    cases hs
    exact ⟨_, rfl, twins_node hb h n (h.levels hr hca hcb)⟩
  | template ht =>
    cases hs
    exact ⟨_, rfl, twins_enter h ht⟩
  | program hp =>
    cases hs
    exact ⟨_, rfl, twins_program h _ _ hp _⟩
  | done =>
    dsimp only at hs ⊢
    split at hs
    · cases hs
    · rename_i f' rest' hst
      cases hs
      obtain ⟨f, rest, hf, ht⟩ := twins_pop h .done hst
      rw [hf]
      exact ⟨_, rfl, ht⟩
  | stopped he =>
    dsimp only at hs ⊢
    split at hs
    · cases hs
    · rename_i f' rest' hst
      cases hs
      obtain ⟨f, rest, hf, ht⟩ := twins_pop h (.stopped he) hst
      rw [hf]
      exact ⟨_, rfl, ht⟩

/-! ## The state inside a rendering -/

theorem twins_start (ha : env.engine.Agrees env.shelf) (t : Template) (data : Bindings) :
    Twins env [] "" (start env t data) (start env t data) :=
  ⟨.nodes t.nodes, "", rfl, ⟨rfl, rfl⟩, ⟨rfl, rfl, rfl, rfl, ha, ha⟩, .base⟩

/-- Each point of a rendering is the twin of itself: the globals are visible there, and the shelf
agrees with the loader. -/
theorem twins_self (hb : env.engine.Blind) (ha : env.engine.Agrees env.shelf) {t : Template}
    {data : Bindings} {m : Machine} (hs : Steps env.engine (start env t data) m) :
    Twins env [] "" m m := by
  induction hs with
  | refl => exact twins_start ha t data
  | tail _ hm ih =>
    obtain ⟨m', hm', ht⟩ := twins_step hb ih Iff.rfl hm
    cases hm.symm.trans hm'
    exact ht

theorem Stacks.length_le {stack stack' : List Frame} (h : Stacks env base before now stack stack') :
    base.length ≤ stack.length := by
  induction h with
  | base => exact Nat.le_refl _
  | _ => simp only [List.length_cons]; omega

/-- Twins stay side by side as long as none of them reaches the limit, and the first does not come
back to a point that lies below its base. -/
theorem twins_run (hb : env.engine.Blind) {c : Machine} (hbase : c.stack.length < base.length)
    (ht : Twins env base before a b) (ha : ∀ m, Relation.ReflTransGen (Within env.engine c) a m → ¬ m.Refuses)
    (hr : ∀ m, Steps env.engine b m → ¬ m.Refuses) (hs : Steps env.engine b b') :
    ∃ a', Relation.ReflTransGen (Within env.engine c) a a' ∧ Twins env base before a' b' := by
  induction hs with
  | refl => exact ⟨a, .refl, ht⟩
  | @tail b₁ b₂ hs₁ hs₂ ih =>
    obtain ⟨a₁, hw, ht⟩ := ih
    obtain ⟨a₂, ha₂, ht₂⟩ := twins_step hb ht (iff_of_false (ha a₁ hw) (hr b₁ hs₁)) hs₂
    refine ⟨a₂, hw.tail ⟨fun he => ?_, ha₂⟩, ht₂⟩
    obtain ⟨now, h⟩ := ht.beside
    have hl := h.stack.length_le
    rw [he.1] at hl
    omega

/-! ## The tag -/

/-- The frames that wait while the template of a tag is rendered by itself. -/
def aloneFrames (m : Machine) : List Frame :=
  .template m.place m.state.line :: .isolation m.around m.state.locals m.state.positions :: m.stack

/-- The machine at the beginning of a template that a tag renders by itself. -/
def alone (m : Machine) (engine : Engine) (t : Loaded) (data : Bindings) (shelf : Shelf) : Machine :=
  ({ m with state := { m.state with shelf } }.isolate data).enter engine t

variable {m : Machine} {pos : Position} {what : Inclusion}

theorem node_alone (pos : Position) {engine : Engine} {t : Loaded} {st : State} {data : Bindings}
    (hf : Run.find (m.setting engine) "render" what.template m.state = (.ok t, st))
    (hg : Run.evalGiven (m.setting engine) what t st = (.ok data, st)) :
    m.node engine (.render pos what) =
      { { m with state := st }.isolate data with control := .template t } := by
  simp only [node, perform, hf, hg]

/-- A tag that renders a template by itself comes to the beginning of that template. -/
theorem begins_alone (h : Twins env [] "" m m) (hc : m.control = .node (.render pos what)) {v : Value}
    (hv : what.template.eval m.view m.around.strict = .ok v) {t : Loaded}
    (ht : env.engine.load v.toText = .ok t.toTemplate) {data : Bindings}
    (hg : (Run.evalGiven (m.setting env.engine) what t m.state).1 = .ok data)
    (h0 : levelsAt m.place ≠ 0) :
    ∃ u shelf, Run.SameTemplate u t ∧ env.engine.Agrees shelf ∧
      Relation.ReflTransGen (Within env.engine m) m (m.alone env.engine u data shelf) := by
  obtain ⟨now, hm⟩ := h.beside
  rcases Run.find_of_load (s := m.setting env.engine) h0 hv hm.state.shelf ht "render" with
    ⟨u, shelf, hf, hu, hs⟩
  have hg' : Run.evalGiven (m.setting env.engine) what u { m.state with shelf } =
      (.ok data, { m.state with shelf }) := by
    have hr : Run.Results env.engine "" Eq
        (Run.evalGiven (m.setting env.engine) what u { m.state with shelf })
        (Run.evalGiven (m.setting env.engine) what t m.state) :=
      Run.matches_evalGiven (.refl _) what hu "" _ _
        ⟨String.empty_append.symm, rfl, rfl, rfl, hs, hm.state.shelf⟩
    have hst := Run.state_evalGiven (m.setting env.engine) what u { m.state with shelf }
    generalize Run.evalGiven (m.setting env.engine) what u { m.state with shelf } = r at hr hst
    generalize Run.evalGiven (m.setting env.engine) what t m.state = r' at hr hg
    cases hr with
    | ok hx _ =>
      cases hx
      cases hg
      cases hst
      rfl
    | error _ _ => cases hg
  refine ⟨u, shelf, hu, hs, ?_⟩
  have h₁ : m.step env.engine =
      some { { m with state := { m.state with shelf } }.isolate data with control := .template u } := by
    unfold step
    rw [hc]
    exact congrArg some (node_alone pos hf hg')
  have hn₀ : ¬ EndedOn m m := by
    rintro ⟨-, how, he⟩
    rw [hc] at he
    cases he
  have hn₁ : ¬ EndedOn m
      { { m with state := { m.state with shelf } }.isolate data with control := .template u } := by
    rintro ⟨-, how, he⟩
    cases he
  exact .head ⟨hn₀, h₁⟩ (.head ⟨hn₁, rfl⟩ .refl)

/-- When the template has ended, the tag has: the names, the place and the loops are those that were
there before. -/
theorem ends_alone {engine : Engine} {a : Machine} {how : Except Stop Unit}
    (hs : a.stack = m.aloneFrames) (hc : a.control = .ended how) :
    Relation.ReflTransGen (Within engine m) a
      (m.back (how.mapError fun stop => .error (stop.toError.positioned a.place a.state.line),
        { a.state with
          line := m.state.line
          locals := m.state.locals
          positions := m.state.positions })) := by
  obtain ⟨control, stack, around, place, state⟩ := a
  cases hs
  cases hc
  have hn (m' : Machine) (hl : m.stack.length < m'.stack.length) : ¬ EndedOn m m' := by
    intro he
    rw [he.1] at hl
    omega
  refine .head ⟨hn _ ?_, rfl⟩ (.head ⟨hn _ ?_, rfl⟩ .refl)
  · simp only [List.length_cons]
    omega
  · simp [resume, endWith]

/-- What a host is told by the end of a rendering, and the machine where a tag has ended that
rendered the same template by itself. -/
def EndsLike (m m' : Machine) : Except Error String → Prop
  | .ok text => m'.control = .ended (.ok ()) ∧ m'.state.output = m.state.output ++ text
  | .error _ => ∃ e, m'.control = .ended (.error (.error e))

theorem twins_alone_start (hm : Beside env [] "" now m m) {t u : Loaded} (ht : Run.SameTemplate t u)
    (data : Bindings) {shelf shelf' : Shelf} (hs : env.engine.Agrees shelf)
    (hs' : env.engine.Agrees shelf') :
    Twins env m.aloneFrames m.state.output (m.alone env.engine t data shelf)
      (start { env with shelf := shelf' } u.toTemplate data) := by
  have ha : m.around.isolated data = ⟨env.globals, data, [], env.strict⟩ := by
    rw [Surroundings.isolated, hm.holds.1, hm.holds.2]
  refine ⟨?_, _, ha, hm.holds, ?_, .base⟩
  · change Controls (.nodes t.nodes) (.nodes u.nodes)
    rw [congrArg Template.nodes ht]
    exact .nodes _
  · refine ⟨(String.append_empty).symm, rfl, rfl, ?_, hs, hs'⟩
    exact congrArg (fun s : Surroundings => Positions.outside s.loopBound) ha

theorem ended_of_outcome {r : Except Error String × Environment} (h : m.outcome env = some r) :
    ∃ how, m.control = .ended how ∧ m.stack = [] ∧
      r.1 = (how.mapError fun stop => stop.toError.positioned m.place m.state.line).map
        fun () => m.state.output := by
  unfold outcome at h
  split at h
  · rename_i how hc hs
    cases h
    exact ⟨how, hc, hs, rfl⟩
  · cases h

/-- A tag that renders a template by itself does what the host does that takes the template from an
environment and renders it with the bindings of the tag, whatever lies on the shelf: the same text is
written, and the one fails if and only if the other does.  Afterwards the names, the local ones too,
are those that were there before.  The loader agrees with the shelf, no tag of the host looks at the
place, and neither rendering reaches the limit of depth. -/
theorem render_alone (hb : env.engine.Blind) (ha : env.engine.Agrees env.shelf) {t₀ : Template}
    {data₀ : Bindings} (hm : Steps env.engine (start env t₀ data₀) m)
    (hc : m.control = .node (.render pos what)) {v : Value}
    (hv : what.template.eval m.view m.around.strict = .ok v) {t : Loaded}
    (ht : env.engine.load v.toText = .ok t.toTemplate) {data : Bindings}
    (hg : (Run.evalGiven (m.setting env.engine) what t m.state).1 = .ok data) {shelf : Shelf}
    (hs : env.engine.Agrees shelf)
    (hl : ∀ m', Relation.ReflTransGen (Within env.engine m) m m' → ¬ m'.Refuses)
    (hl' : ∀ m', Steps env.engine
      (start (Environment.get { env with shelf } v.toText).2 t.toTemplate data) m' → ¬ m'.Refuses) :
    ∃ m', Relation.ReflTransGen (Within env.engine m) m m' ∧ EndedOn m m' ∧ m'.scope = m.scope ∧
      m'.place = m.place ∧ m'.state.positions = m.state.positions ∧
      EndsLike m m' (Environment.renderNamed { env with shelf } v.toText (.ok data)).1 := by
  have h := twins_self hb ha hm
  have h0 : levelsAt m.place ≠ 0 := fun h0 => hl m .refl ⟨h0, _, _, v, hc, rfl, hv⟩
  obtain ⟨u, shelf₁, hu, hs₁, hw⟩ := begins_alone h hc hv ht hg h0
  obtain ⟨now, hbm⟩ := h.beside
  -- the rendering that the host asks for, to its end
  obtain ⟨w, shelf₂, hget, hw₂, hs₂⟩ := Environment.get_of_load { env with shelf } hs ht
  rw [hget] at hl'
  obtain ⟨b, hsb, ho⟩ := steps_render { env with shelf := shelf₂ } t.toTemplate data
  -- the tag goes beside it
  have hbase : m.stack.length < m.aloneFrames.length := by
    simp only [aloneFrames, List.length_cons]
    omega
  rcases twins_run hb hbase (twins_alone_start hbm hu data hs₁ hs₂) (fun m' hm' => hl m' (hw.trans hm'))
    hl' hsb with ⟨a, hwa, htw⟩
  obtain ⟨how, hcb, hstb, hr⟩ := ended_of_outcome ho
  obtain ⟨now, hab⟩ := htw.beside
  have hsa := hab.stack
  rw [hstb] at hsa
  generalize hst : a.stack = stack at hsa
  cases hsa
  have hca := htw.control
  rw [hcb] at hca
  have hn : Environment.renderNamed { env with shelf } v.toText (.ok data) =
      Environment.render { env with shelf := shelf₂ } t.toTemplate data := by
    unfold Environment.renderNamed
    rw [hget]
    dsimp only
    rw [hw₂]
  rw [hn, hr]
  generalize hcc : a.control = c at hca
  cases hca with
  | done =>
    exact ⟨_, (hw.trans hwa).trans (ends_alone hst hcc), ⟨rfl, _, rfl⟩, rfl, rfl, rfl, rfl,
      hab.state.output⟩
  | stopped he =>
    exact ⟨_, (hw.trans hwa).trans (ends_alone hst hcc), ⟨rfl, _, rfl⟩, rfl, rfl, rfl, _, rfl⟩

/-! ## A case -/

/-- Whether no template is named at present. -/
def idle (m : Machine) : Bool :=
  match m.control with
  | .node n => n.target?.isNone
  | _ => true

theorem not_refuses_of_idle (h : m.idle = true) : ¬ m.Refuses := by
  rintro ⟨-, n, e, v, hc, ht, -⟩
  simp [idle, hc, ht] at h

/-- What holds at a point and on the run from the next one holds on the run from the point. -/
theorem forall_run {engine : Engine} {r : Machine → Machine → Prop} {P : Machine → Prop}
    (hr : ∀ x, r m x → m.step engine = some x) {m' : Machine} (hs : m.step engine = some m')
    (h0 : P m) (h : ∀ x, Relation.ReflTransGen r m' x → P x) :
    ∀ x, Relation.ReflTransGen r m x → P x := by
  intro x hx
  rcases hx.cases_head with rfl | ⟨y, hy, hx⟩
  · exact h0
  · cases hs.symm.trans (hr y hy)
    exact h x hx

/-- An environment with one template, which writes what a name means. -/
def sample : Environment where
  engine := ⟨some (.table [("t", "{{a}}")]), {}, {}⟩
  globals := []
  strict := false
  maxDepth := 1
  shelf := { cache := { maxSize := 1, label := "" } }

/-- The template of that environment. -/
def sampleTemplate : Loaded where
  source := "{{a}}"
  name := some "t"
  filename := none
  nodes := [.output ⟨0, 1, 0⟩ (some (.name ⟨2, 1, 2⟩ "a")) [] false false]
  number := 0

/-- A tag that renders it by itself. -/
def sampleTag : Inclusion where
  template := .const ⟨0, 1, 0⟩ (.text "t")
  given := none
  called := none
  bindings := [("a", .const ⟨0, 1, 0⟩ (.text "x"))]

/-- A template with this tag. -/
def sampleCaller : Template := ⟨"", none, none, [.render ⟨0, 1, 0⟩ sampleTag]⟩

/-- The machine at this tag. -/
def sampleMachine : Machine :=
  { start sample sampleCaller [("a", .text "y")] with
    control := .node (.render ⟨0, 1, 0⟩ sampleTag)
    stack := [.behind []]
    state := { (start sample sampleCaller [("a", .text "y")]).state with line := 1 } }

theorem find_sample :
    Run.find (sampleMachine.setting sample.engine) "render" sampleTag.template sampleMachine.state =
      (.ok sampleTemplate,
        { sampleMachine.state with
          shelf := ⟨⟨1, "", [("t", sampleTemplate)], 0, 1⟩, 1⟩ }) := by
  cbv

theorem sample_not_refuses :
    ∀ m, Relation.ReflTransGen (Within sample.engine sampleMachine) sampleMachine m →
      ¬ m.Refuses := by
  have hs := congrArg some (node_alone ⟨0, 1, 0⟩ find_sample rfl)
  refine forall_run (fun _ h => h.2) hs (fun h => nomatch h.1) ?_
  iterate 7 refine forall_run (fun _ h => h.2) rfl (not_refuses_of_idle rfl) ?_
  intro m hm
  rcases hm.cases_head with rfl | ⟨m', hm, -⟩
  · exact not_refuses_of_idle rfl
  · exact absurd ⟨rfl, _, rfl⟩ hm.1

theorem sample_host_not_refuses :
    ∀ m, Steps sample.engine
      (start (Environment.get { sample with shelf := sample.shelf } "t").2 sampleTemplate.toTemplate
        [("a", .text "x")]) m → ¬ m.Refuses := by
  iterate 4 refine forall_run (fun _ h => h) rfl (not_refuses_of_idle rfl) ?_
  intro m hm
  rcases hm.cases_head with rfl | ⟨m', hm, -⟩
  · exact not_refuses_of_idle rfl
  · cases hm

/-- The tag writes what it binds, not what the name means around it. -/
theorem render_alone_sample :
    ∃ m', Relation.ReflTransGen (Within sample.engine sampleMachine) sampleMachine m' ∧
      m'.scope = sampleMachine.scope ∧ m'.control = .ended (.ok ()) ∧ m'.state.output = "x" := by
  have hb : sample.engine.Blind := fun _ _ _ h => nomatch h
  have ha : sample.engine.Agrees sample.shelf := fun _ _ h => nomatch h
  have hm : Steps sample.engine (start sample sampleCaller [("a", .text "y")]) sampleMachine :=
    .single rfl
  have hv : sampleTag.template.eval sampleMachine.view sampleMachine.around.strict =
      .ok (.text "t") := rfl
  have ht : sample.engine.load (Value.text "t").toText = .ok sampleTemplate.toTemplate := by cbv
  have hg : (Run.evalGiven (sampleMachine.setting sample.engine) sampleTag sampleTemplate
      sampleMachine.state).1 = .ok [("a", .text "x")] := rfl
  have hx : (Environment.renderNamed { sample with shelf := sample.shelf } (Value.text "t").toText
      (.ok [("a", .text "x")])).1 = .ok "x" := by
    cbv
  rcases render_alone hb ha hm rfl hv ht hg ha sample_not_refuses sample_host_not_refuses with
    ⟨m', hw, -, hsc, -, -, he⟩
  rw [hx] at he
  exact ⟨m', hw, hsc, he⟩

end Machine

end Liquid
