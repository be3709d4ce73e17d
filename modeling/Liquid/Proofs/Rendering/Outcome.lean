import Liquid.Proofs.Rendering.Machine

/-!
# The machine and the renderer agree

Started on some nodes, the machine comes to the point where they have ended as `renderNodes` says,
and then everything that stood around them stands there as before: what waits, the frames and the
place.  The number of levels that `renderNodes` is given is the number that the place leaves; the
machine knows no levels, so that this is also why rendering ends.

* `steps_nodes`: the machine comes to the end of any nodes, with the outcome of the renderer.
* `steps_render`: the machine started on a template ends with the outcome of `Environment.render`.
-/
namespace Liquid

/-- The number of levels of templates that may be entered from a place. -/
def levelsAt : Option Place → Nat
  | none => Environment.freeLevels
  | some p => (p.limit - p.depth).toNat

namespace Run

theorem levelsAt_placeOf (s : Setting) (line : Int) (t : Loaded) :
    levelsAt (some (placeOf s line t)) = levelsAt s.place - 1 := by
  unfold placeOf
  cases s.place with
  | none => rfl
  | some p => simp only [levelsAt, Place.child]; omega

theorem checkDepth_of_pos {s : Setting} (h : levelsAt s.place ≠ 0) (name : String) :
    checkDepth s name = pure () := by
  unfold checkDepth
  cases hp : s.place with
  | none => rfl
  | some p =>
    have hd : (p.depth : Int) < p.limit := by
      rw [hp] at h; simp only [levelsAt] at h; omega
    funext st
    have hc := (p.check_eq_ok_iff st.line name).2 hd
    rw [bind_apply]
    change ofExcept ((p.check st.line name).mapError _) st = _
    rw [hc]
    rfl

theorem checkDepth_of_zero {s : Setting} (h : levelsAt s.place = 0) (name : String) (st : State) :
    checkDepth s name st =
      (.error (.error (.of (.render ((s.place.getD .nowhere).tooDeep st.line name)))), st) := by
  cases hp : s.place with
  | none => rw [hp] at h; cases h
  | some p =>
    have hd : p.limit ≤ p.depth := by rw [hp] at h; simp only [levelsAt] at h; omega
    unfold checkDepth
    rw [bind_apply, hp]
    change ofExcept ((p.check st.line name).mapError _) st = _
    rw [Place.check, if_pos hd]
    rfl

/-- The check of the depth and the number of levels that are left say the same. -/
theorem findTemplate_below (s : Setting) (tag : String) (e : Expr) :
    findTemplate (below (levelsAt s.place)) s tag e =
      (do return (renderNodes (below (levelsAt s.place - 1)), ← find s tag e)) := by
  unfold findTemplate find
  simp only [bind_assoc]
  congr 1
  funext v
  cases hk : levelsAt s.place with
  | zero =>
    funext st
    rw [bind_of_error (checkDepth_of_zero hk _ st)]
    rfl
  | succ k =>
    rw [checkDepth_of_pos (by omega)]
    rfl

theorem renderBranches_eq (deeper : Option Renderer) (s : Setting) (otherwise : List Node)
    (branches : List (Branch Node)) :
    renderBranches deeper s (renderNodes deeper s otherwise) branches =
      chooseBranch s otherwise branches >>= renderNodes deeper s := by
  induction branches with
  | nil => simp [renderBranches, chooseBranch]
  | cons b rest ih =>
    simp only [renderBranches, chooseBranch, bind_assoc]
    congr 1
    funext v
    split
    · simp
    · exact ih

theorem renderWhens_eq (deeper : Option Renderer) (s : Setting) (subject : Value)
    (otherwise : List Node) (whens : List (When Node)) :
    renderWhens deeper s subject (renderNodes deeper s otherwise) whens =
      chooseWhen s subject otherwise whens >>= renderNodes deeper s := by
  induction whens with
  | nil => simp [renderWhens, chooseWhen]
  | cons w rest ih =>
    simp only [renderWhens, chooseWhen, bind_assoc]
    congr 1
    funext b
    cases b
    · exact ih
    · simp

theorem renderNode_conditional (deeper : Option Renderer) (s : Setting) (pos : Position)
    (negated : Bool) (test : Expr) (body : List Node) (branches : List (Branch Node))
    (otherwise : List Node) :
    renderNode deeper s (.conditional pos negated test body branches otherwise) =
      chooseBody s negated test body branches otherwise >>= renderNodes deeper s := by
  rw [renderNode, chooseBody, bind_assoc]
  congr 1
  funext v
  split
  · simp
  · exact renderBranches_eq deeper s otherwise branches

theorem renderNode_choice (deeper : Option Renderer) (s : Setting) (pos : Position)
    (subject : Expr) (whens : List (When Node)) (otherwise : List Node) :
    renderNode deeper s (.choice pos subject whens otherwise) =
      (do chooseWhen s (← eval s subject) otherwise whens) >>= renderNodes deeper s := by
  rw [renderNode, bind_assoc]
  congr 1
  funext v
  exact renderWhens_eq deeper s v otherwise whens

/-- Where no more templates can be entered, none is found. -/
theorem levelsAt_of_find {s : Setting} {tag : String} {e : Expr} {t : Loaded} {st st' : State}
    (h : find s tag e st = (.ok t, st')) : levelsAt s.place ≠ 0 := by
  intro h0
  rw [find, bind_apply] at h
  split at h
  · rw [bind_of_error (checkDepth_of_zero h0 _ _)] at h
    cases h
  · cases h

theorem mem_of_chooseBranch {s : Setting} {otherwise body : List Node}
    {branches : List (Branch Node)} {st st' : State}
    (h : chooseBranch s otherwise branches st = (.ok body, st')) :
    body = otherwise ∨ ∃ b ∈ branches, body = b.body := by
  induction branches generalizing st with
  | nil => cases h; exact .inl rfl
  | cons b rest ih =>
    rw [chooseBranch, bind_apply] at h
    split at h
    · split at h
      · cases h; exact .inr ⟨b, .head _, rfl⟩
      · rcases ih h with rfl | ⟨c, hc, rfl⟩
        · exact .inl rfl
        · exact .inr ⟨c, .tail _ hc, rfl⟩
    · cases h

theorem mem_of_chooseWhen {s : Setting} {subject : Value} {otherwise body : List Node}
    {whens : List (When Node)} {st st' : State}
    (h : chooseWhen s subject otherwise whens st = (.ok body, st')) :
    body = otherwise ∨ ∃ w ∈ whens, body = w.body := by
  induction whens generalizing st with
  | nil => cases h; exact .inl rfl
  | cons w rest ih =>
    rw [chooseWhen, bind_apply] at h
    split at h
    · split at h
      · cases h; exact .inr ⟨w, .head _, rfl⟩
      · rcases ih h with rfl | ⟨x, hx, rfl⟩
        · exact .inl rfl
        · exact .inr ⟨x, .tail _ hx, rfl⟩
    · cases h

theorem mem_of_chooseBody {s : Setting} {negated : Bool} {test : Expr}
    {body otherwise chosen : List Node} {branches : List (Branch Node)} {st st' : State}
    (h : chooseBody s negated test body branches otherwise st = (.ok chosen, st')) :
    chosen = body ∨ chosen = otherwise ∨ ∃ b ∈ branches, chosen = b.body := by
  rw [chooseBody, bind_apply] at h
  split at h
  · split at h
    · cases h; exact .inl rfl
    · exact .inr (mem_of_chooseBranch h)
  · cases h

theorem mem_bodies_of_chooseBody {s : Setting} {pos : Position} {negated : Bool} {test : Expr}
    {body otherwise chosen : List Node} {branches : List (Branch Node)} {st st' : State}
    (h : chooseBody s negated test body branches otherwise st = (.ok chosen, st')) :
    chosen ∈ (Node.conditional pos negated test body branches otherwise).bodies := by
  rw [Node.bodies]
  rcases mem_of_chooseBody h with rfl | rfl | ⟨b, hm, rfl⟩
  · exact .head _
  · exact .tail _ (.head _)
  · exact .tail _ (.tail _ (List.mem_map_of_mem hm))

theorem mem_bodies_of_chooseWhen {s : Setting} {pos : Position} {subject : Expr} {v : Value}
    {otherwise chosen : List Node} {whens : List (When Node)} {st st' : State}
    (h : chooseWhen s v otherwise whens st = (.ok chosen, st')) :
    chosen ∈ (Node.choice pos subject whens otherwise).bodies := by
  rw [Node.bodies]
  rcases mem_of_chooseWhen h with rfl | ⟨w, hm, rfl⟩
  · exact .head _
  · exact .tail _ (List.mem_map_of_mem hm)

theorem mem_bodies_of_choice {s : Setting} {pos : Position} {subject : Expr}
    {otherwise chosen : List Node} {whens : List (When Node)} {st st' : State}
    (h : (do chooseWhen s (← eval s subject) otherwise whens) st = (.ok chosen, st')) :
    chosen ∈ (Node.choice pos subject whens otherwise).bodies := by
  rw [bind_apply] at h
  split at h
  · exact mem_bodies_of_chooseWhen h
  · cases h

end Run

namespace Machine

/-- The machine where its present work has ended as said, and all around stands as it stood. -/
def back (m : Machine) (r : Except Stop Unit × State) : Machine :=
  { m with control := .ended r.1, state := r.2 }

variable {engine : Engine} {m : Machine}

theorem steps_perform {α : Type} {run : Run α} {next : Machine → α → Machine} {f : α → Run Unit}
    (h : ∀ x st, run m.state = (.ok x, st) →
      Steps engine (next { m with state := st } x) (m.back (f x st))) :
    Steps engine (m.perform run next) (m.back ((run >>= f) m.state)) := by
  unfold perform
  rw [Run.bind_apply]
  rcases hr : run m.state with ⟨stop | x, st⟩
  · exact .refl
  · exact h x st hr

theorem steps_done (run : Run Unit) :
    Steps engine (m.perform run fun m () => m.done) (m.back (run m.state)) := by
  unfold perform
  rcases run m.state with ⟨stop | _, st⟩ <;> exact .refl

/-- Nodes whose rendering the machine carries out where so many levels are left. -/
def Carries (engine : Engine) (k : Nat) (nodes : List Node) : Prop :=
  ∀ m : Machine, levelsAt m.place = k →
    Steps engine (m.goOn nodes) (m.back (renderNodes (below k) (m.setting engine) nodes m.state))

/-! ## Templates -/

/-- Templates whose rendering the machine carries out where so many levels are left. -/
def Enters (engine : Engine) (k : Nat) : Prop :=
  ∀ (m : Machine) (t : Loaded), levelsAt m.place = k → k ≠ 0 →
    Steps engine { m with control := .template t }
      (m.back (Run.renderTemplate (renderNodes (below (k - 1))) (m.setting engine) t m.state))

theorem enters_of_carries {k : Nat} (h : ∀ nodes, Carries engine (k - 1) nodes) :
    Enters engine k := by
  intro m t hk h0
  have hl : levelsAt (some (Run.placeOf (m.setting engine) m.state.line t)) = k - 1 := by
    rw [Run.levelsAt_placeOf]; exact congrArg (· - 1) hk
  refine .head (b := m.enter engine t) rfl ?_
  refine .trans (h t.nodes (m.enter engine t) hl) (.single ?_)
  have hr : Run.renderTemplate (renderNodes (below (k - 1))) (m.setting engine) t m.state =
      Run.enter (some (Run.placeOf (m.setting engine) m.state.line t))
        (renderNodes (below (k - 1)) ((m.enter engine t).setting engine) t.nodes) m.state := rfl
  rw [hr, Run.enter_apply]
  rfl

/-! ## Loops -/

/-- The machine where what stood in a block of its own has ended as said. -/
def closing (m : Machine) (frame : Bindings) (how : Except Stop Unit) (st : State) : Machine :=
  { m with
    control := .ended how
    stack := .block :: m.stack
    around := m.around.push frame
    state := st }

/-- The same where `f` still waits in the block. -/
def inBlock (m : Machine) (frame : Bindings) (f : Frame) (how : Except Stop Unit) (st : State) :
    Machine :=
  { m.closing frame how st with stack := f :: .block :: m.stack }

theorem steps_closing (frame : Bindings) (how : Except Stop Unit) (st : State) :
    Steps engine (m.closing frame how st) (m.back (how, st)) := .single rfl

/-- What a loop does for one of its items. -/
def visit (engine : Engine) (k : Nat) (m : Machine) (l : Loop) (target : String)
    (body : List Node) (position : Int) (v : Value) : Run Unit := do
  Run.moveTo l position
  let frame := Bindings.set target v [("forloop", .loop l)]
  renderNodes (below k) ((m.setting engine).push frame) body

theorem steps_visits {k : Nat} {body : List Node} (hb : Carries engine k body)
    (hk : levelsAt m.place = k) (l : Loop) (target : String) (items : List Value) :
    ∀ (position : Int) (frame : Bindings) (how : Except Stop Unit) (st : State),
      how = .ok () ∨ how = .error (.signal .next) →
      (∀ v, frame.set target v = Bindings.set target v [("forloop", .loop l)]) →
      Steps engine (m.inBlock frame (.visits l target body position items) how st)
        (m.back (Run.visitAll (visit engine k m l target body) position items st)) := by
  induction items with
  | nil =>
    intro position frame how st hw _
    refine .head (b := m.closing frame (.ok ()) st) ?_ (steps_closing frame (.ok ()) st)
    rcases hw with rfl | rfl <;> rfl
  | cons v rest ih =>
    intro position frame how st hw hf
    let st₁ : State := { st with positions := st.positions.setIfInBounds l.id (some position) }
    let frame₁ := frame.set target v
    let m₁ := m.inBlock frame₁ (.visits l target body (position + 1) rest) (.ok ()) st₁
    have h₁ : (m.inBlock frame (.visits l target body position (v :: rest)) how st).step engine =
        some (m₁.goOn body) := by
      rcases hw with rfl | rfl <;> rfl
    refine .head h₁ (.trans (hb m₁ hk) ?_)
    have hv : renderNodes (below k) (m₁.setting engine) body m₁.state =
        visit engine k m l target body position v st := by
      change renderNodes (below k) ((m.setting engine).push frame₁) body st₁ = _
      rw [show frame₁ = _ from hf v]
      rfl
    have hf₁ : ∀ w, frame₁.set target w = Bindings.set target w [("forloop", .loop l)] := by
      intro w
      rw [Bindings.set_set, hf]
    rw [hv, Run.visitAll, Run.bind_apply]
    unfold Run.untilSignal
    rcases visit engine k m l target body position v st with ⟨(sg | e) | _, st₂⟩
    case error.signal =>
      cases sg with
      | leave => exact .head rfl (steps_closing frame₁ (.ok ()) st₂)
      | next => exact ih _ _ _ _ (.inr rfl) hf₁
    case error.error => exact .head rfl (steps_closing frame₁ (.error (.error e)) st₂)
    case ok => exact ih _ _ _ _ (.inl rfl) hf₁

/-- What a tag does that renders a template for each of some items. -/
def visitItem (engine : Engine) (k : Nat) (m : Machine) (l : Loop) (bindings : Bindings)
    (called : String) (t : Loaded) (position : Int) (v : Value) : Run Unit := do
  Run.moveTo l position
  let frame := bindings.set called v
  Run.renderTemplate (renderNodes (below (k - 1))) ((m.setting engine).push frame) t

theorem steps_items {k : Nat} (he : Enters engine k) (h0 : k ≠ 0) (hk : levelsAt m.place = k)
    (l : Loop) (bindings : Bindings) (called : String) (t : Loaded) (items : List Value) :
    ∀ (position : Int) (frame : Bindings) (st : State),
      (∀ v, frame.set called v = bindings.set called v) →
      Steps engine (m.inBlock frame (.items l called t position items) (.ok ()) st)
        (m.back (Run.forAll (visitItem engine k m l bindings called t) position items st)) := by
  induction items with
  | nil =>
    intro position frame st _
    exact .head rfl (steps_closing frame (.ok ()) st)
  | cons v rest ih =>
    intro position frame st hf
    let st₁ : State := { st with positions := st.positions.setIfInBounds l.id (some position) }
    let frame₁ := frame.set called v
    let m₁ := m.inBlock frame₁ (.items l called t (position + 1) rest) (.ok ()) st₁
    have h₁ : (m.inBlock frame (.items l called t position (v :: rest)) (.ok ()) st).step engine =
        some { m₁ with control := .template t } := rfl
    refine .head h₁ (.trans (he m₁ t hk h0) ?_)
    have hv : Run.renderTemplate (renderNodes (below (k - 1))) (m₁.setting engine) t m₁.state =
        visitItem engine k m l bindings called t position v st := by
      change Run.renderTemplate _ ((m.setting engine).push frame₁) t st₁ = _
      rw [show frame₁ = _ from hf v]
      rfl
    have hf₁ : ∀ w, frame₁.set called w = bindings.set called w := by
      intro w
      rw [Bindings.set_set, hf]
    rw [hv, Run.forAll, Run.bind_apply]
    rcases visitItem engine k m l bindings called t position v st with ⟨stop | _, st₂⟩
    case error => exact .head rfl (steps_closing frame₁ (.error stop) st₂)
    case ok => exact ih _ _ _ hf₁

/-! ## Tags of the host -/

/-- What a tag of the host has its body rendered by. -/
def hostBody (engine : Engine) (k : Nat) (m : Machine) (body : List Node) (where_ : Surrounding) :
    Run (String × Option Signal) :=
  Run.inSurrounding (m.setting engine) where_ fun inner =>
    Run.capturedToSignal (renderNodes (below k) inner body)

/-- What a tag of the host writes and passes on in the end. -/
def writeResult (r : Value × Option Signal) : Run Unit := do
  Run.write r.1.toText
  match r.2 with
  | some signal => throw (.signal signal)
  | none => pure ()

/-- The machine after the body of a tag of the host is rendered. -/
def afterBody (m : Machine) (tag : String) (body : List Node) (next : String → Program) :
    Except Stop (String × Option Signal) × State → Machine
  | (.ok (text, pending), st) =>
    { m with control := .program tag body (next text) pending, state := st }
  | (.error (.error e), st) => m.back (.error (.error (e.withinTag tag)), st)
  | (.error (.signal sg), st) => m.back (.error (.signal sg), st)

/-- What has been collected of a body that ended as said, where so much stood in the output. -/
def collected (output : String) :
    Except Stop Unit × State → Except Stop (String × Option Signal) × State
  | (.ok (), st) => (.ok (st.output, none), { st with output })
  | (.error (.signal sg), st) => (.ok (st.output, some sg), { st with output })
  | (.error (.error e), st) => (.error (.error e), { st with output })

theorem capturedToSignal_eq (run : Run Unit) (st : State) :
    Run.capturedToSignal run st = collected st.output (run { st with output := "" }) := by
  rw [Run.capturedToSignal_apply]
  rcases run { st with output := "" } with ⟨(_ | _) | _, st'⟩ <;> rfl

theorem step_host (tag : String) (body : List Node) (next : String → Program) (output : String)
    (r : Except Stop Unit × State) :
    ((m.wait (.host tag body next output)).back r).step engine =
      some (m.afterBody tag body next (collected output r)) := by
  rcases r with ⟨(_ | _) | _, st⟩ <;> rfl

theorem steps_hostBody {k : Nat} {body : List Node} (hb : Carries engine k body)
    (hk : levelsAt m.place = k) (tag : String) (where_ : Surrounding) (next : String → Program) :
    Steps engine { m with control := .program tag body (.body where_ next) none }
      (m.afterBody tag body next (hostBody engine k m body where_ m.state)) := by
  let m₀ := m.collect (.host tag body next)
  cases where_ with
  | here =>
    refine .head (b := m₀.goOn body) rfl (.trans (hb m₀ hk) (.single ?_))
    change _ = some (m.afterBody tag body next (Run.capturedToSignal _ m.state))
    rw [capturedToSignal_eq]
    exact step_host tag body next m.state.output _
  | inside frame =>
    let m₁ := m₀.openBlock frame
    refine .head (b := m₁.goOn body) rfl (.trans (hb m₁ hk) ?_)
    refine .head (b := m₀.back (renderNodes (below k) (m₁.setting engine) body m₁.state)) rfl
      (.single ?_)
    change _ = some (m.afterBody tag body next (Run.capturedToSignal _ m.state))
    rw [capturedToSignal_eq]
    exact step_host tag body next m.state.output _
  | isolated data =>
    let m₁ := m₀.isolate data
    let r := renderNodes (below k) (m₁.setting engine) body m₁.state
    refine .head (b := m₁.goOn body) rfl (.trans (hb m₁ hk) ?_)
    refine .head (b := m₀.back (r.1, { r.2 with
      locals := m.state.locals, positions := m.state.positions })) rfl (.single ?_)
    rw [hostBody, Run.inSurrounding, Run.isolate, capturedToSignal_eq]
    refine (step_host tag body next m.state.output _).trans ?_
    change _ = some (m.afterBody tag body next
      ((collected m.state.output r).1, { (collected m.state.output r).2 with
        locals := m.state.locals, positions := m.state.positions }))
    rcases r with ⟨(_ | _) | _, st⟩ <;> rfl

theorem onError_bind {α β : Type} (f : Error → Error) (run : Run α) (g : α → Run β) (st : State) :
    Run.onError f (run >>= g) st =
      match run st with
      | (.ok x, st') => Run.onError f (g x) st'
      | (.error (.error e), st') => (.error (.error (f e)), st')
      | (.error (.signal sg), st') => (.error (.signal sg), st') := by
  unfold Run.onError
  rw [Run.bind_apply]
  rcases run st with ⟨(_ | _) | _, st'⟩ <;> rfl

/-- All that a tag of the host does, from one of its steps on. -/
def hostRun (engine : Engine) (k : Nat) (m : Machine) (tag : String) (body : List Node)
    (p : Program) (pending : Option Signal) : Run Unit := do
  writeResult (← Run.onError (Error.withinTag tag)
    (Run.program (m.setting engine) (hostBody engine k m body) p pending))

theorem hostRun_body (k : Nat) (tag : String) (body : List Node) (where_ : Surrounding)
    (next : String → Program) (st : State) :
    hostRun engine k m tag body (.body where_ next) none st =
      match hostBody engine k m body where_ st with
      | (.ok (text, pending), st') => hostRun engine k m tag body (next text) pending st'
      | (.error (.error e), st') => (.error (.error (e.withinTag tag)), st')
      | (.error (.signal sg), st') => (.error (.signal sg), st') := by
  unfold hostRun
  rw [Run.bind_apply, Run.program, onError_bind]
  rcases hostBody engine k m body where_ st with ⟨(_ | _) | ⟨text, pending⟩, st'⟩
  · rfl
  · rfl
  · dsimp only
    rw [Run.bind_apply]

theorem steps_program {k : Nat} {body : List Node} (hb : Carries engine k body) (tag : String)
    (p : Program) :
    ∀ (m : Machine) (pending : Option Signal), levelsAt m.place = k →
      Steps engine { m with control := .program tag body p pending }
        (m.back (hostRun engine k m tag body p pending m.state)) := by
  induction p with
  | done v =>
    intro m pending hk
    refine .single ?_
    cases pending <;> rfl
  | fail e =>
    intro m pending hk
    exact .single rfl
  | body where_ next ih =>
    intro m pending hk
    cases pending with
    | some sg => exact .head rfl (ih "" m (some sg) hk)
    | none =>
      refine .trans (steps_hostBody hb hk tag where_ next) ?_
      rw [hostRun_body]
      rcases hostBody engine k m body where_ m.state with ⟨(sg | e) | ⟨text, pending⟩, st⟩
      · exact .refl
      · exact .refl
      · exact ih text { m with state := st } pending hk
  | look next ih =>
    intro m pending hk
    exact .head rfl (ih _ m pending hk)
  | assign name v next ih =>
    intro m pending hk
    exact .head rfl (ih { m with state := { m.state with locals := m.state.locals.set name v } }
      pending hk)

/-! ## Nodes -/

theorem steps_loop {k : Nat} {body otherwise : List Node} (hb : Carries engine k body)
    (ho : Carries engine k otherwise) (hk : levelsAt m.place = k) (pos : Position)
    (head : LoopHead) :
    Steps engine (m.node engine (.loop pos head body otherwise))
      (m.back (renderNode (below k) (m.setting engine) (.loop pos head body otherwise) m.state)) := by
  rw [renderNode]
  simp only [node]
  refine steps_perform fun items st _ => ?_
  cases items with
  | nil => exact ho { m with state := st } hk
  | cons v rest =>
    dsimp only
    rw [← bind_assoc]
    refine steps_perform (m := { m with state := st }) fun l st' _ => ?_
    exact steps_visits (m := { m with state := st' }) hb hk l head.target (v :: rest) 0 _ _ _
      (.inl rfl) fun _ => rfl

theorem steps_capture {k : Nat} {body : List Node} (hb : Carries engine k body)
    (hk : levelsAt m.place = k) (pos : Position) (name : String) :
    Steps engine (m.node engine (.capture pos name body))
      (m.back (renderNode (below k) (m.setting engine) (.capture pos name body) m.state)) := by
  let m₀ := m.collect (.captured name)
  refine .trans (hb m₀ hk) (.single ?_)
  have hr := Run.captured_apply (renderNodes (below k) (m.setting engine) body) m.state
  rw [renderNode, Run.bind_apply, hr]
  change (m₀.back (renderNodes (below k) (m.setting engine) body
    { m.state with output := "" })).step engine = _
  rcases renderNodes (below k) (m.setting engine) body { m.state with output := "" } with
    ⟨_ | _, st⟩ <;> rfl

theorem steps_include {k : Nat} (he : Enters engine k) (hk : levelsAt m.place = k)
    (pos : Position) (what : Inclusion) (each : Option Expr) :
    Steps engine (m.node engine (.include pos what each))
      (m.back (renderNode (below k) (m.setting engine) (.include pos what each) m.state)) := by
  subst hk
  rw [renderNode, Run.includeTemplate]
  rw [show m.place = (m.setting engine).place from rfl, Run.findTemplate_below, bind_assoc]
  simp only [node]
  refine steps_perform fun t st ht => ?_
  have h0 := Run.levelsAt_of_find ht
  rw [pure_bind]
  cases each with
  | none =>
    refine steps_perform (m := { m with state := st }) fun bindings st' _ => ?_
    let m₁ := { m with state := st' }.openBlock bindings
    exact .trans (he m₁ t rfl h0) (steps_closing (m := { m with state := st' }) bindings _ _)
  | some e =>
    refine steps_perform (m := { m with state := st }) fun x st' _ => ?_
    obtain ⟨bindings, items, l⟩ := x
    exact steps_items (m := { m with state := st' }) he h0 rfl l bindings _ t items 0 bindings st'
      fun _ => rfl

theorem steps_alone {k : Nat} (he : Enters engine k) (hk : levelsAt m.place = k)
    (pos : Position) (what : Inclusion) :
    Steps engine (m.node engine (.render pos what))
      (m.back (renderNode (below k) (m.setting engine) (.render pos what) m.state)) := by
  subst hk
  rw [renderNode, Run.renderAlone]
  rw [show m.place = (m.setting engine).place from rfl, Run.findTemplate_below, bind_assoc]
  simp only [node]
  refine steps_perform fun t st ht => ?_
  have h0 := Run.levelsAt_of_find ht
  rw [pure_bind]
  refine steps_perform (m := { m with state := st }) fun bindings st' _ => ?_
  let m₁ := { m with state := st' }.isolate bindings
  exact .trans (he m₁ t rfl h0) (.single rfl)

theorem steps_tag {k : Nat} {body : List Node} (hb : Carries engine k body)
    (hk : levelsAt m.place = k) (pos : Position) (name : String) (arguments : List Expr)
    (markup : String) :
    Steps engine (m.node engine (.tag pos name arguments body markup))
      (m.back (renderNode (below k) (m.setting engine) (.tag pos name arguments body markup)
        m.state)) := by
  rw [renderNode, Run.hostTag]
  simp only [node]
  rw [show (m.setting engine).engine = engine from rfl]
  cases engine.tags.get? name with
  | none => exact steps_done _
  | some tag =>
    refine steps_perform fun values st _ => ?_
    exact steps_program hb name (tag.run values) { m with state := st } none hk

theorem steps_node {k : Nat} (he : Enters engine k) (hk : levelsAt m.place = k) (n : Node)
    (hb : ∀ body ∈ n.bodies, Carries engine k body) :
    Steps engine (m.node engine n)
      (m.back (renderNode (below k) (m.setting engine) n m.state)) := by
  cases n with
  | text pos text | raw pos text =>
    rw [renderNode]
    exact steps_done (Run.write text)
  | assign pos name e filters =>
    rw [renderNode]
    exact steps_done _
  | comment pos text | signal pos signal =>
    rw [renderNode]
    exact .refl
  | output pos e filters standalone source =>
    cases e with
    | none => rw [renderNode]; exact .refl
    | some e => rw [renderNode]; exact steps_done _
  | conditional pos negated test body branches otherwise =>
    rw [Run.renderNode_conditional]
    simp only [node]
    exact steps_perform fun chosen st h =>
      hb chosen (Run.mem_bodies_of_chooseBody h) { m with state := st } hk
  | choice pos subject whens otherwise =>
    rw [Run.renderNode_choice]
    simp only [node]
    exact steps_perform fun chosen st h =>
      hb chosen (Run.mem_bodies_of_choice h) { m with state := st } hk
  | loop pos head body otherwise =>
    exact steps_loop (hb body (by simp [Node.bodies])) (hb otherwise (by simp [Node.bodies])) hk
      pos head
  | capture pos name body => exact steps_capture (hb body (by simp [Node.bodies])) hk pos name
  | «include» pos what each => exact steps_include he hk pos what each
  | render pos what => exact steps_alone he hk pos what
  | tag pos name arguments body markup =>
    exact steps_tag (hb body (by simp [Node.bodies])) hk pos name arguments markup

/-- Nodes are carried out if each of them is. -/
theorem carries_of_nodes {k : Nat} (he : Enters engine k) (nodes : List Node)
    (hb : ∀ n ∈ nodes, ∀ body ∈ n.bodies, Carries engine k body) : Carries engine k nodes := by
  induction nodes with
  | nil =>
    intro m hk
    rw [renderNodes_nil]
    exact .single rfl
  | cons n rest ih =>
    intro m hk
    let m₀ : Machine := { m.wait (.behind rest) with
      control := .node n
      state := { m.state with line := n.pos.line } }
    have hn := steps_node (m := m₀) he hk n (hb n (.head _))
    refine .head (b := m₀) rfl (.head rfl (.trans hn ?_))
    have hr : renderNodes (below k) (m.setting engine) (n :: rest) m.state =
        (renderNode (below k) (m.setting engine) n >>= fun () =>
          renderNodes (below k) (m.setting engine) rest) m₀.state := by
      rw [renderNodes_cons]
      rfl
    rw [hr, Run.bind_apply]
    change Steps engine (m₀.back (renderNode (below k) (m.setting engine) n m₀.state)) _
    rcases renderNode (below k) (m.setting engine) n m₀.state with ⟨stop | _, st⟩
    case error => exact .single rfl
    case ok =>
      exact .head rfl (ih (fun x hx => hb x (.tail _ hx)) { m with state := st } hk)

theorem carries (engine : Engine) (k : Nat) : ∀ nodes, Carries engine k nodes := by
  induction k with
  | zero =>
    have he : Enters engine 0 := fun _ _ _ h0 => absurd rfl h0
    exact Node.induction_bodies (carries_of_nodes he)
  | succ k ih =>
    have he : Enters engine (k + 1) := enters_of_carries ih
    exact Node.induction_bodies (carries_of_nodes he)

/-- The machine comes to the end of any nodes, with the outcome of the renderer. -/
theorem steps_nodes (engine : Engine) (m : Machine) (nodes : List Node) :
    Steps engine (m.goOn nodes)
      (m.back (renderNodes (below (levelsAt m.place)) (m.setting engine) nodes m.state)) :=
  carries engine _ nodes m rfl

/-- The machine started on a template ends with the outcome of its rendering. -/
theorem steps_render (env : Environment) (t : Template) (data : Bindings) :
    ∃ m, Steps env.engine (start env t data) m ∧ m.outcome env = some (env.render t data) := by
  let m := start env t data
  refine ⟨_, steps_nodes env.engine m t.nodes, ?_⟩
  have hl : levelsAt m.place = env.levels := by
    simp only [m, start, levelsAt, Environment.setting, Environment.placeOf, Environment.levels]
    omega
  rw [hl, Environment.render, Run.enter_apply]
  let r := renderNodes (below env.levels) (m.setting env.engine) t.nodes m.state
  change some ((r.1.mapError _).map _, _) = some ((Environment.ended (r.1.mapError _)).map _, _)
  rcases r with ⟨_ | _, st⟩ <;> rfl

end Machine

end Liquid
