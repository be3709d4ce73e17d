import Liquid.Proofs.Rendering.Termination

/-!
# How deep templates are nested

The depth is counted in the places, and a place counts only what is above itself.  That the count is
true of the whole rendering is an invariant of the machine: under every template that has been
entered lies the place of the one that entered it, one level less deep and below the limit.

* `Nested`: the invariant of the stack.
* `bounded_step`, `bounded_run`: no step breaks it.
* `depth_limited`: a rendering ends, never nests more templates than the limit, and where it has
  reached the limit it refuses a further one before it is loaded.
-/
namespace Liquid

/-- The expression for the name of the template that a node enters. -/
def Node.target? : Node → Option Expr
  | .include _ what _ | .render _ what => some what.template
  | _ => none

/-- Whether a template is entered next. -/
def Control.enters : Control → Bool
  | .template _ => true
  | _ => false

namespace Machine

/-- A place with so many templates above it. -/
def At (limit : Int) (depth : Nat) (place : Option Place) : Prop :=
  ∃ p, place = some p ∧ p.limit = limit ∧ p.depth = depth

/-- A stack below a place whose count is true on each level.  A template may be entered for the next
item of a tag only where the limit is not reached, for it is not asked again. -/
def Nested (limit : Int) (place : Option Place) : List Frame → Prop
  | [] => At limit 0 place
  | .template outer _ :: stack =>
    At limit (active.entered stack + 1) place ∧ (active.entered stack : Int) < limit ∧
      Nested limit outer stack
  | .items _ _ _ _ _ :: stack => (active.entered stack : Int) < limit ∧ Nested limit place stack
  | _ :: stack => Nested limit place stack

theorem Nested.at {limit : Int} {place : Option Place} {stack : List Frame}
    (h : Nested limit place stack) : At limit (active.entered stack) place := by
  induction stack with
  | nil => exact h
  | cons f stack ih =>
    cases f with
    | template outer line => exact h.1
    | items => exact ih h.2
    | _ => exact ih h

theorem Nested.entered_le {limit : Int} {place : Option Place} {stack : List Frame}
    (h : Nested limit place stack) : (active.entered stack : Int) ≤ max limit 0 := by
  induction stack generalizing place with
  | nil => exact Int.le_max_right limit 0
  | cons f stack ih =>
    cases f with
    | template outer line =>
      have hl := h.2.1
      simp only [active.entered]
      omega
    | items => exact ih h.2
    | _ => exact ih h

/-- A machine whose count is true, and that enters a template only below the limit. -/
structure Bounded (limit : Int) (m : Machine) : Prop where
  nested : Nested limit m.place m.stack
  ready : m.control.enters = true → (m.active : Int) < limit

variable {limit : Int} {engine : Engine} {m m' : Machine}

theorem Bounded.of_nested (h : Nested limit m.place m.stack) (hc : m.control.enters = false) :
    m.Bounded limit :=
  ⟨h, fun he => absurd (he.symm.trans hc) Bool.noConfusion⟩

theorem active_lt_of_find {tag : String} {e : Expr} {t : Loaded} {st st' : State}
    (h : Nested limit m.place m.stack)
    (hf : Run.find (m.setting engine) tag e st = (.ok t, st')) : (m.active : Int) < limit := by
  have h0 : levelsAt m.place ≠ 0 := Run.levelsAt_of_find hf
  obtain ⟨p, hp, hl, hd⟩ := h.at
  rw [hp] at h0
  simp only [levelsAt] at h0
  simp only [active]
  omega

theorem bounded_perform {α : Type} {run : Run α} {next : Machine → α → Machine}
    (h : Nested limit m.place m.stack)
    (hn : ∀ x st, run m.state = (.ok x, st) → (next { m with state := st } x).Bounded limit) :
    (m.perform run next).Bounded limit := by
  unfold perform
  rcases hr : run m.state with ⟨stop | x, st⟩
  · exact .of_nested h rfl
  · exact hn x st hr

theorem bounded_done (run : Run Unit) (h : Nested limit m.place m.stack) :
    (m.perform run fun m () => m.done).Bounded limit :=
  bounded_perform h fun _ _ _ => .of_nested h rfl

theorem bounded_node (h : Nested limit m.place m.stack) (n : Node) :
    (m.node engine n).Bounded limit := by
  cases n with
  | text pos text | raw pos text => exact bounded_done (Run.write text) h
  | assign pos name e filters => exact bounded_done _ h
  | comment pos text | signal pos signal | capture pos name body => exact .of_nested h rfl
  | output pos e filters standalone source =>
    cases e with
    | none => exact .of_nested h rfl
    | some e => exact bounded_done _ h
  | conditional pos negated test body branches otherwise =>
    exact bounded_perform h fun _ _ _ => .of_nested h rfl
  | choice pos subject whens otherwise => exact bounded_perform h fun _ _ _ => .of_nested h rfl
  | loop pos head body otherwise =>
    simp only [node]
    refine bounded_perform h fun items st _ => ?_
    cases items with
    | nil => exact .of_nested h rfl
    | cons v rest => exact bounded_perform h fun _ _ _ => .of_nested h rfl
  | «include» pos what each =>
    simp only [node]
    refine bounded_perform h fun t st hf => ?_
    have hl := active_lt_of_find h hf
    cases each with
    | none => exact bounded_perform h fun _ _ _ => ⟨h, fun _ => hl⟩
    | some e => exact bounded_perform h fun _ _ _ => Bounded.of_nested ⟨hl, h⟩ rfl
  | render pos what =>
    simp only [node]
    refine bounded_perform h fun t st hf => ?_
    have hl := active_lt_of_find h hf
    exact bounded_perform h fun _ _ _ => ⟨h, fun _ => hl⟩
  | tag pos name arguments body markup =>
    simp only [node]
    cases engine.tags.get? name with
    | none => exact bounded_done _ h
    | some tag => exact bounded_perform h fun _ _ _ => .of_nested h rfl

theorem bounded_enter (h : Nested limit m.place m.stack) (hl : (m.active : Int) < limit)
    (t : Loaded) : (m.enter engine t).Bounded limit := by
  refine Bounded.of_nested ⟨?_, hl, h⟩ rfl
  obtain ⟨p, hp, hpl, hpd⟩ := h.at
  refine ⟨p.child m.state.line t.name (some t.source), ?_, hpl, ?_⟩
  · simp only [enter, Run.placeOf, setting, wait, hp]
  · exact congrArg (· + 1) hpd

theorem bounded_program (h : Nested limit m.place m.stack) (tag : String) (body : List Node)
    (p : Program) (pending : Option Signal) : (m.program engine tag body p pending).Bounded limit := by
  cases p with
  | done v => cases pending <;> exact .of_nested h rfl
  | fail e | look next | assign name v next => exact .of_nested h rfl
  | body where_ next =>
    cases pending with
    | some sg => exact .of_nested h rfl
    | none => cases where_ <;> exact .of_nested h rfl

theorem bounded_resume {f : Frame} (h : Nested limit m.place (f :: m.stack))
    (how : Except Stop Unit) : (m.resume how f).Bounded limit := by
  cases f with
  | behind nodes | captured name output => cases how <;> exact .of_nested h rfl
  | block | isolation around locals positions => exact .of_nested h rfl
  | template place line => exact .of_nested h.2.2 rfl
  | visits l target body position items =>
    rcases how with (_ | _) | _
    case error.signal sg => cases sg <;> cases items <;> exact .of_nested h rfl
    case error.error e => exact .of_nested h rfl
    case ok => cases items <;> exact .of_nested h rfl
  | items l called t position items =>
    cases how with
    | error stop => exact .of_nested h.2 rfl
    | ok =>
      cases items with
      | nil => exact .of_nested h.2 rfl
      | cons v rest => exact ⟨h, fun _ => h.1⟩
  | host tag body next output => rcases how with (_ | _) | _ <;> exact .of_nested h rfl

/-! ## Steps -/

/-- No step breaks the count. -/
theorem bounded_step (h : m.Bounded limit) (hs : m.step engine = some m') : m'.Bounded limit := by
  unfold step at hs
  split at hs
  case h_1 => cases hs; exact .of_nested h.nested rfl
  case h_2 => cases hs; exact .of_nested h.nested rfl
  case h_3 n _ => cases hs; exact bounded_node h.nested n
  case h_4 t hc => cases hs; exact bounded_enter h.nested (h.ready (hc ▸ rfl)) t
  case h_5 tag body p pending _ => cases hs; exact bounded_program h.nested tag body p pending
  case h_6 how _ =>
    split at hs
    · cases hs
    · rename_i f rest hst
      cases hs
      exact bounded_resume (hst ▸ h.nested) how

/-- The count is true of the start of a template and after any steps. -/
theorem bounded_run {env : Environment} {t : Template} {data : Bindings}
    (hs : Relation.ReflTransGen Next (start env t data) m) : m.Bounded env.maxDepth := by
  induction hs with
  | refl => exact Bounded.of_nested ⟨_, rfl, rfl, rfl⟩ rfl
  | tail _ hn ih =>
    obtain ⟨engine, hn⟩ := hn
    exact bounded_step ih hn

/-! ## At the limit -/

theorem find_of_full {s : Setting} {e : Expr} {v : Value} {st : State} (h0 : levelsAt s.place = 0)
    (he : e.eval (s.view st) s.around.strict = .ok v) (tag : String) :
    Run.find s tag e st =
      (.error (.error (.of (.render ((s.place.getD .nowhere).tooDeep st.line v.toText)))), st) := by
  have hv : Run.eval s e st = (.ok v, st) := by
    rw [Run.eval_apply, he]
    rfl
  unfold Run.find
  rw [Run.bind_of_ok hv, Run.bind_of_error (Run.checkDepth_of_zero h0 _ _)]

theorem perform_of_error {α : Type} {run : Run α} {next : Machine → α → Machine} {stop : Stop}
    (h : run m.state = (.error stop, m.state)) : m.perform run next = m.endWith (.error stop) := by
  unfold perform
  rw [h]

/-- Where the limit is reached, a tag that names a template fails in one step.  The engine is not
asked, and nothing changes. -/
theorem step_of_full {n : Node} {e : Expr} {v : Value} (h : Nested limit m.place m.stack)
    (hm : (m.active : Int) = max limit 0) (hc : m.control = .node n) (ht : n.target? = some e)
    (he : e.eval m.view m.around.strict = .ok v) (engine : Engine) :
    m.step engine = some (m.endWith (.error (.error
      (.of (.render ((m.place.getD .nowhere).tooDeep m.state.line v.toText)))))) := by
  have h0 : levelsAt m.place = 0 := by
    obtain ⟨p, hp, hl, hd⟩ := h.at
    rw [hp]
    simp only [levelsAt, active] at hm ⊢
    omega
  have hf (tag : String) := find_of_full (s := m.setting engine) h0 he tag
  unfold step
  rw [hc]
  cases n with
  | «include» pos what each =>
    cases ht
    simp only [node]
    exact congrArg some (perform_of_error (hf "include"))
  | render pos what =>
    cases ht
    simp only [node]
    exact congrArg some (perform_of_error (hf "render"))
  | _ => cases ht

/-- Every rendering ends, whatever the host answers at each step, and with a host that keeps to its
answers it ends as `render` says.  At every moment as many templates are active as the limit allows
or fewer.  Where that many are active, a tag that names a further one fails for that reason, whatever
the loader has under the name. -/
theorem depth_limited (env : Environment) (t : Template) (data : Bindings) :
    (start env t data).Halts ∧
    (∃ m, Steps env.engine (start env t data) m ∧ m.outcome env = some (env.render t data)) ∧
    ∀ m, Relation.ReflTransGen Next (start env t data) m →
      (m.active : Int) ≤ max env.maxDepth 0 ∧
      ∀ n e v, m.control = .node n → n.target? = some e →
        e.eval m.view m.around.strict = .ok v → (m.active : Int) = max env.maxDepth 0 →
        ∃ r : RenderError, r.code = .includeDepth ∧
          ∀ engine, m.step engine = some (m.endWith (.error (.error (.of (.render r))))) := by
  refine ⟨halts_start env t data, steps_render env t data, fun m hs => ?_⟩
  have h := (bounded_run hs).nested
  exact ⟨h.entered_le, fun n e v hc ht he hm => ⟨_, rfl, step_of_full h hm hc ht he⟩⟩

end Machine

end Liquid
