import Liquid.Proofs.Rendering.Outcome

/-!
# Every rendering ends

It ends whatever the host answers.  A loader, a filter or a tag of the host need not answer the same
when it is asked again, so each step here may be taken with an engine of its own.

**Why it ends.** A body is a part of its node, so only a template that is entered could make a
rendering go on.  Each template that is entered leaves one level less, and on the lowest level none
is found.

* `ends`: where nothing waits that could go on for ever, nodes do not go on for ever.
* `halts_start`: nor does a template from its start.
-/
namespace Liquid

namespace Machine

/-- Nothing goes on for ever from here. -/
def Halts (m : Machine) : Prop := Acc (fun m' m => Next m m') m

variable {m m' : Machine}

theorem halts_of_next (h : ∀ engine m', m.step engine = some m' → m'.Halts) : m.Halts :=
  .intro _ fun _ ⟨engine, hs⟩ => h engine _ hs

theorem halts_of_step (hs : ∀ engine, m.step engine = some m') (h : m'.Halts) : m.Halts := by
  refine halts_of_next fun engine m'' hs' => ?_
  cases (hs engine).symm.trans hs'
  exact h

theorem halts_perform {α : Type} {run : Run α} {next : Machine → α → Machine}
    (hn : ∀ x st, run m.state = (.ok x, st) → (next { m with state := st } x).Halts)
    (hm : ∀ r, (m.back r).Halts) : (m.perform run next).Halts := by
  unfold perform
  rcases hr : run m.state with ⟨stop | x, st⟩
  · exact hm (.error stop, st)
  · exact hn x st hr

theorem halts_done (run : Run Unit) (hm : ∀ r, (m.back r).Halts) :
    (m.perform run fun m () => m.done).Halts :=
  halts_perform (fun _ st _ => hm (.ok (), st)) hm

/-- Nodes that end where so many levels are left, if nothing behind them goes on for ever. -/
def Ends (k : Nat) (nodes : List Node) : Prop :=
  ∀ m : Machine, levelsAt m.place = k → (∀ r, (m.back r).Halts) → (m.goOn nodes).Halts

/-- Templates that end where so many levels are left, if nothing behind them goes on for ever. -/
def EndsWithin (k : Nat) : Prop :=
  ∀ (m : Machine) (t : Loaded), levelsAt m.place = k → k ≠ 0 → (∀ r, (m.back r).Halts) →
    { m with control := .template t }.Halts

theorem endsWithin_of_ends {k : Nat} (h : ∀ nodes, Ends (k - 1) nodes) : EndsWithin k := by
  intro m t hk h0 hm
  refine halts_of_next fun engine m' hs => ?_
  cases hs
  have hl : levelsAt (m.enter engine t).place = k - 1 := by
    rw [← hk]
    exact Run.levelsAt_placeOf _ _ _
  exact h t.nodes (m.enter engine t) hl fun r => halts_of_step (fun _ => rfl) (hm (_, _))

/-! ## Blocks -/

theorem halts_closing (frame : Bindings) (how : Except Stop Unit) (st : State)
    (hm : ∀ r, (m.back r).Halts) : (m.closing frame how st).Halts :=
  halts_of_step (fun _ => rfl) (hm (how, st))

theorem halts_visits {k : Nat} {body : List Node} (hb : Ends k body) (hk : levelsAt m.place = k)
    (hm : ∀ r, (m.back r).Halts) (l : Loop) (target : String) (items : List Value) :
    ∀ (position : Int) (frame : Bindings) (how : Except Stop Unit) (st : State),
      (m.inBlock frame (.visits l target body position items) how st).Halts := by
  induction items with
  | nil =>
    intro position frame how st
    rcases how with (_ | _) | _
    case error.signal sg =>
      cases sg <;> exact halts_of_step (fun _ => rfl) (halts_closing frame (.ok ()) st hm)
    case error.error e =>
      exact halts_of_step (fun _ => rfl) (halts_closing frame (.error (.error e)) st hm)
    case ok => exact halts_of_step (fun _ => rfl) (halts_closing frame (.ok ()) st hm)
  | cons v rest ih =>
    intro position frame how st
    let st₁ : State := { st with positions := st.positions.setIfInBounds l.id (some position) }
    let frame₁ := frame.set target v
    let m₁ := m.inBlock frame₁ (.visits l target body (position + 1) rest) (.ok ()) st₁
    have h₁ : (m₁.goOn body).Halts := hb m₁ hk fun r => ih _ frame₁ r.1 r.2
    rcases how with (_ | _) | _
    case error.signal sg =>
      cases sg with
      | leave => exact halts_of_step (fun _ => rfl) (halts_closing frame (.ok ()) st hm)
      | next => exact halts_of_step (fun _ => rfl) h₁
    case error.error e =>
      exact halts_of_step (fun _ => rfl) (halts_closing frame (.error (.error e)) st hm)
    case ok => exact halts_of_step (fun _ => rfl) h₁

theorem halts_items {k : Nat} (he : EndsWithin k) (h0 : k ≠ 0) (hk : levelsAt m.place = k)
    (hm : ∀ r, (m.back r).Halts) (l : Loop) (called : String) (t : Loaded) (items : List Value) :
    ∀ (position : Int) (frame : Bindings) (how : Except Stop Unit) (st : State),
      (m.inBlock frame (.items l called t position items) how st).Halts := by
  induction items with
  | nil =>
    intro position frame how st
    cases how with
    | error stop => exact halts_of_step (fun _ => rfl) (halts_closing frame (.error stop) st hm)
    | ok => exact halts_of_step (fun _ => rfl) (halts_closing frame (.ok ()) st hm)
  | cons v rest ih =>
    intro position frame how st
    cases how with
    | error stop => exact halts_of_step (fun _ => rfl) (halts_closing frame (.error stop) st hm)
    | ok =>
      let st₁ : State := { st with positions := st.positions.setIfInBounds l.id (some position) }
      let frame₁ := frame.set called v
      let m₁ := m.inBlock frame₁ (.items l called t (position + 1) rest) (.ok ()) st₁
      exact halts_of_step (fun _ => rfl) (he m₁ t hk h0 fun r => ih _ frame₁ r.1 r.2)

/-! ## Tags of the host -/

theorem halts_hostBody {k : Nat} {body : List Node} (hb : Ends k body) (hk : levelsAt m.place = k)
    (hm : ∀ r, (m.back r).Halts) (tag : String) (where_ : Surrounding) (next : String → Program)
    (hn : ∀ text pending st,
      { m with control := .program tag body (next text) pending, state := st }.Halts) :
    { m with control := .program tag body (.body where_ next) none }.Halts := by
  let m₀ := m.collect (.host tag body next)
  have h₀ : ∀ r, (m₀.back r).Halts := by
    intro r
    refine halts_of_step (fun engine => step_host tag body next m.state.output r) ?_
    rcases r with ⟨(_ | _) | _, st⟩
    case error.error e => exact hm (_, _)
    all_goals exact hn _ _ _
  cases where_ with
  | here => exact halts_of_step (fun _ => rfl) (hb m₀ hk h₀)
  | inside frame =>
    exact halts_of_step (fun _ => rfl) (hb (m₀.openBlock frame) hk fun r =>
      halts_of_step (fun _ => rfl) (h₀ r))
  | isolated data =>
    exact halts_of_step (fun _ => rfl) (hb (m₀.isolate data) hk fun r =>
      halts_of_step (fun _ => rfl) (h₀ (r.1, { r.2 with
        locals := m.state.locals, positions := m.state.positions })))

theorem halts_program {k : Nat} {body : List Node} (hb : Ends k body) (tag : String) (p : Program) :
    ∀ (m : Machine) (pending : Option Signal), levelsAt m.place = k → (∀ r, (m.back r).Halts) →
      { m with control := .program tag body p pending }.Halts := by
  induction p with
  | done v =>
    intro m pending _ hm
    cases pending <;> exact halts_of_step (fun _ => rfl) (hm (_, _))
  | fail e =>
    intro m pending _ hm
    exact halts_of_step (fun _ => rfl) (hm (_, _))
  | body where_ next ih =>
    intro m pending hk hm
    cases pending with
    | some sg => exact halts_of_step (fun _ => rfl) (ih "" m (some sg) hk hm)
    | none =>
      exact halts_hostBody hb hk hm tag where_ next fun text pending st =>
        ih text { m with state := st } pending hk hm
  | look next ih =>
    intro m pending hk hm
    exact halts_of_next fun engine m' hs => by cases hs; exact ih _ m pending hk hm
  | assign name v next ih =>
    intro m pending hk hm
    exact halts_of_step (fun _ => rfl)
      (ih { m with state := { m.state with locals := m.state.locals.set name v } } pending hk hm)

/-! ## Nodes -/

theorem halts_loop {k : Nat} {body otherwise : List Node} (hb : Ends k body)
    (ho : Ends k otherwise) (hk : levelsAt m.place = k) (hm : ∀ r, (m.back r).Halts)
    (engine : Engine) (pos : Position) (head : LoopHead) :
    (m.node engine (.loop pos head body otherwise)).Halts := by
  simp only [node]
  refine halts_perform (fun items st _ => ?_) hm
  cases items with
  | nil => exact ho { m with state := st } hk hm
  | cons v rest =>
    refine halts_perform (fun l st' _ => ?_) hm
    exact halts_visits (m := { m with state := st' }) hb hk hm l head.target (v :: rest) 0 _ _ _

theorem halts_include {k : Nat} (he : EndsWithin k) (hk : levelsAt m.place = k)
    (hm : ∀ r, (m.back r).Halts) (engine : Engine) (pos : Position) (what : Inclusion)
    (each : Option Expr) : (m.node engine (.include pos what each)).Halts := by
  subst hk
  simp only [node]
  refine halts_perform (fun t st ht => ?_) hm
  have h0 := Run.levelsAt_of_find ht
  cases each with
  | none =>
    refine halts_perform (fun bindings st' _ => ?_) hm
    exact he ({ m with state := st' }.openBlock bindings) t rfl h0 fun r =>
      halts_of_step (fun _ => rfl) (hm r)
  | some e =>
    refine halts_perform (fun x st' _ => ?_) hm
    obtain ⟨bindings, items, l⟩ := x
    exact halts_items (m := { m with state := st' }) he h0 rfl hm l _ t items 0 bindings _ st'

theorem halts_alone {k : Nat} (he : EndsWithin k) (hk : levelsAt m.place = k)
    (hm : ∀ r, (m.back r).Halts) (engine : Engine) (pos : Position) (what : Inclusion) :
    (m.node engine (.render pos what)).Halts := by
  subst hk
  simp only [node]
  refine halts_perform (fun t st ht => ?_) hm
  have h0 := Run.levelsAt_of_find ht
  refine halts_perform (fun bindings st' _ => ?_) hm
  exact he ({ m with state := st' }.isolate bindings) t rfl h0 fun r =>
    halts_of_step (fun _ => rfl) (hm (r.1, { r.2 with
      locals := st'.locals, positions := st'.positions }))

theorem halts_node {k : Nat} (he : EndsWithin k) (hk : levelsAt m.place = k)
    (hm : ∀ r, (m.back r).Halts) (n : Node) (hb : ∀ body ∈ n.bodies, Ends k body)
    (engine : Engine) : (m.node engine n).Halts := by
  cases n with
  | text pos text | raw pos text => exact halts_done (Run.write text) hm
  | assign pos name e filters => exact halts_done _ hm
  | comment pos text | signal pos signal => exact hm (_, _)
  | output pos e filters standalone source =>
    cases e with
    | none => exact hm (_, _)
    | some e => exact halts_done _ hm
  | conditional pos negated test body branches otherwise =>
    exact halts_perform (fun chosen st h =>
      hb chosen (Run.mem_bodies_of_chooseBody h) { m with state := st } hk hm) hm
  | choice pos subject whens otherwise =>
    exact halts_perform (fun chosen st h =>
      hb chosen (Run.mem_bodies_of_choice h) { m with state := st } hk hm) hm
  | loop pos head body otherwise =>
    exact halts_loop (hb body (by simp [Node.bodies])) (hb otherwise (by simp [Node.bodies])) hk hm
      engine pos head
  | capture pos name body =>
    refine hb body (by simp [Node.bodies]) (m.collect (.captured name)) hk fun r => ?_
    let st : State := { r.2 with output := m.state.output }
    rcases r with ⟨stop | _, st'⟩
    case error => exact halts_of_step (fun _ => rfl) (hm (.error stop, st))
    case ok =>
      exact halts_of_step (fun _ => rfl)
        (hm (.ok (), { st with locals := st.locals.set name (.text st'.output) }))
  | «include» pos what each => exact halts_include he hk hm engine pos what each
  | render pos what => exact halts_alone he hk hm engine pos what
  | tag pos name arguments body markup =>
    simp only [node]
    cases engine.tags.get? name with
    | none => exact halts_done _ hm
    | some tag =>
      exact halts_perform (fun values st _ => halts_program (hb body (by simp [Node.bodies])) name
        (tag.run values) { m with state := st } none hk hm) hm

/-- Nodes end if the bodies of each of them do. -/
theorem ends_of_nodes {k : Nat} (he : EndsWithin k) (nodes : List Node)
    (hb : ∀ n ∈ nodes, ∀ body ∈ n.bodies, Ends k body) : Ends k nodes := by
  induction nodes with
  | nil =>
    intro m _ hm
    exact halts_of_step (fun _ => rfl) (hm (.ok (), m.state))
  | cons n rest ih =>
    intro m hk hm
    let m₀ : Machine := { m.wait (.behind rest) with
      control := .node n
      state := { m.state with line := n.pos.line } }
    have h₀ : ∀ r, (m₀.back r).Halts := by
      rintro ⟨_ | _, st⟩
      case error stop => exact halts_of_step (fun _ => rfl) (hm (.error stop, st))
      case ok =>
        exact halts_of_step (fun _ => rfl)
          (ih (fun x hx => hb x (.tail _ hx)) { m with state := st } hk hm)
    have hn : m₀.Halts := by
      refine halts_of_next fun engine m' hs => ?_
      cases hs
      exact halts_node (m := m₀) he hk h₀ n (hb n (.head _)) engine
    exact halts_of_step (fun _ => rfl) hn

/-- Where nothing waits that could go on for ever, nodes do not go on for ever. -/
theorem ends (k : Nat) : ∀ nodes, Ends k nodes := by
  induction k with
  | zero =>
    have he : EndsWithin 0 := fun _ _ _ h0 => absurd rfl h0
    exact Node.induction_bodies (ends_of_nodes he)
  | succ k ih =>
    have he : EndsWithin (k + 1) := endsWithin_of_ends ih
    exact Node.induction_bodies (ends_of_nodes he)

/-- A template does not go on for ever from its start, whatever the host answers at each step. -/
theorem halts_start (env : Environment) (t : Template) (data : Bindings) :
    (start env t data).Halts := by
  refine ends _ t.nodes (start env t data) rfl fun r => halts_of_next fun engine m' hs => ?_
  cases hs

end Machine

end Liquid
