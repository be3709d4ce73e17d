import Liquid.Proofs.Rendering.Reasons

/-!
# The trail of a rendering

A rendering knows where it is by two things that it carries along: the place, which is handed down
from template to template, and the line, which every node overwrites.  Neither remembers what is
being executed.  The trail does: for every template that is being rendered, it lists the nodes that
are executed in it, and tells which node was begun last.  It goes beside the machine and is never
looked at.

**Invariant.** The place has the name and the chain of templates that the trail has, and the line is
that of the node begun last in the innermost template.  What waits is in step with the trail: behind
each node that is executed some nodes wait, a template was entered from an include or render tag
that is executed and was begun last, and a tag of the host that waits for its body is executed.

* `tracks_step`, `tracks_run`: no step breaks the invariant.
* `Traced.exists_run`: every run of the machine leaves a trail.
* `Traced.after`: a run of so many steps, computed.
-/
namespace Liquid

/-- A template that is being rendered, the nodes that are executed in it, the innermost first, and
the one that was begun last. -/
structure Activation where
  template : Template
  running : List Node := []
  latest : Option Node := none

/-- The templates that are being rendered, the innermost first. -/
abbrev Trail := List Activation

namespace Trail

/-- A node begins in the innermost template. -/
def begin (n : Node) : Trail → Trail
  | [] => []
  | a :: outer => { a with running := n :: a.running, latest := some n } :: outer

/-- A template is entered. -/
def enter (t : Template) (trail : Trail) : Trail := ⟨t, [], none⟩ :: trail

/-- What waited goes on: a node has ended, or a template. -/
def resume : Frame → Trail → Trail
  | .behind _, a :: outer => { a with running := a.running.tail } :: outer
  | .template _ _, _ :: outer => outer
  | _, trail => trail

/-- The trail after the next step of the machine. -/
def next (m : Machine) (trail : Trail) : Trail :=
  match m.control, m.stack with
  | .nodes (n :: _), _ => trail.begin n
  | .template t, _ => trail.enter t.toTemplate
  | .ended _, f :: _ => trail.resume f
  | _, _ => trail

/-- The name that the innermost template goes by.  A template without a name goes by that of the
template around it. -/
def name : Trail → Option String
  | [] => none
  | [a] => a.template.name
  | a :: outer => (nonEmpty? a.template.name).or (name outer)

/-- The innermost node that is executed in the innermost template. -/
def node? : Trail → Option Node
  | [] => none
  | a :: _ => a.running.head?

/-- The node that was begun last in the innermost template. -/
def latest? : Trail → Option Node
  | [] => none
  | a :: _ => a.latest

/-- How the innermost template shows among those around a template that it has entered: by its name
and the line of the tag that is executed.  A template without a name does not show. -/
def entry (trail : Trail) : TemplateStack :=
  match nonEmpty? trail.name, trail.node? with
  | some name, some n => [(name, n.pos.line)]
  | _, _ => []

/-- The templates around the innermost one, the outermost first. -/
def chain : Trail → TemplateStack
  | [] => []
  | _ :: outer => chain outer ++ entry outer

/-- The line of the node that was begun last in the innermost template. -/
def line (trail : Trail) : Int := (trail.latest?.map fun n => (n.pos.line : Int)).getD 0

end Trail

/-- A machine with the trail of the rendering. -/
structure Traced where
  machine : Machine
  trail : Trail

namespace Traced

/-- One step, whatever the host answers. -/
def Next (r r' : Traced) : Prop :=
  Machine.Next r.machine r'.machine ∧ r'.trail = r.trail.next r.machine

/-- The beginning of a template. -/
def start (env : Environment) (t : Template) (data : Bindings) : Traced :=
  ⟨.start env t data, [⟨t, [], none⟩]⟩

/-- Every run of the machine leaves a trail. -/
theorem exists_run {m m' : Machine} (h : Relation.ReflTransGen Machine.Next m m') (trail : Trail) :
    ∃ r, Relation.ReflTransGen Next ⟨m, trail⟩ r ∧ r.machine = m' := by
  induction h with
  | refl => exact ⟨_, .refl, rfl⟩
  | tail _ hn ih =>
    obtain ⟨r, hr, rfl⟩ := ih
    exact ⟨⟨_, r.trail.next r.machine⟩, .tail hr ⟨hn, rfl⟩, rfl⟩

/-- A run with its trail is a run of the machine. -/
theorem machine_run {r r' : Traced} (h : Relation.ReflTransGen Next r r') :
    Relation.ReflTransGen Machine.Next r.machine r'.machine :=
  h.lift Traced.machine fun _ _ hn => hn.1

/-- What some steps lead to that a host answers, or as many as there are. -/
def after (engine : Engine) : Nat → Traced → Traced
  | 0, r => r
  | k + 1, r =>
    match r.machine.step engine with
    | some m => after engine k ⟨m, r.trail.next r.machine⟩
    | none => r

theorem run_after (engine : Engine) (k : Nat) (r : Traced) :
    Relation.ReflTransGen Next r (after engine k r) := by
  induction k generalizing r with
  | zero => exact .refl
  | succ k ih =>
    rw [after]
    split
    · rename_i m hm
      exact .head ⟨⟨engine, hm⟩, rfl⟩ (ih _)
    · exact .refl

end Traced

namespace Node

/-- Nodes that stand on lines of a source, with all that is in them. -/
abbrev Lined (nodes : List Node) : Prop := Placed (fun p => 0 < p.line) nodes

theorem Placed.mono {P Q : Position → Prop} (hi : ∀ p, P p → Q p) {nodes : List Node}
    (h : Placed P nodes) : Placed Q nodes := by
  induction nodes using induction_bodies with
  | h nodes ih =>
    rw [placed_iff] at h ⊢
    intro n hn
    obtain ⟨hp, hc, hb⟩ := h n hn
    exact ⟨hi _ hp, fun call hcall => hi _ (hc call hcall), fun body hbody =>
      ih n hn body hbody (hb body hbody)⟩

theorem Lined.bodies {n : Node} {body : List Node} (h : Lined [n]) (hb : body ∈ n.bodies) :
    Lined body := (placed_singleton.1 h).2.2 body hb

end Node

theorem Template.Parsed.lined {t : Template} (h : t.Parsed) : Node.Lined t.nodes := by
  obtain ⟨tags, source, h⟩ := h
  exact (placed_of_parse h).mono fun _ hp => hp.line_pos

/-! ## The invariant -/

open Node (Lined placed_cons placed_singleton)

/-- Whether a template waits to be left. -/
def Frame.leaves : Frame → Bool
  | .template _ _ => true
  | _ => false

namespace Trail

variable {trail outer : Trail} {a : Activation} {n : Node} {f : Frame} {stack : List Frame}
  {place : Option Place}

/-- The place has the name and the chain of the trail. -/
def At (trail : Trail) (place : Option Place) : Prop :=
  ∃ p, place = some p ∧ p.template = trail.name ∧ p.stack = trail.chain

/-- A tag that enters templates is executed and was begun last. -/
def Entering (trail : Trail) : Prop :=
  ∃ n, trail.node? = some n ∧ trail.latest? = some n ∧ n.target?.isSome ∧ 0 < n.pos.line

/-- If a node is executed, some node was begun last. -/
def Begun (trail : Trail) : Prop :=
  trail.node?.isSome → ∃ n, trail.latest? = some n ∧ 0 < n.pos.line

/-- A tag of the host is executed. -/
def Runs (trail : Trail) (tag : String) : Prop :=
  ∃ pos arguments body markup, trail.node? = some (.tag pos tag arguments body markup)

/-- What a frame waits for is what is executed.  The items of a tag that enters templates wait on
top, or directly below such a template: nothing else is begun among them. -/
def Holds (fresh : Bool) (trail : Trail) : Frame → Prop
  | .behind nodes => Lined nodes ∧ trail.node?.isSome
  | .template place line =>
    (trail.resume (.template place line)).At place ∧
      line = (trail.resume (.template place line)).line ∧
      (trail.resume (.template place line)).Entering
  | .visits _ _ body _ _ => Lined body
  | .items _ _ t _ _ => fresh = true ∧ t.toTemplate.Parsed ∧ trail.Entering
  | .host tag body _ _ => Lined body ∧ trail.Runs tag
  | _ => True

/-- What waits is in step with the trail.  Nothing has been begun in the innermost template since
the top of the stack came to wait, if so it is said. -/
def InStep : Bool → Trail → List Frame → Prop
  | _, trail, [] => trail.length = 1
  | fresh, trail, f :: stack => trail.Holds fresh f ∧ InStep f.leaves (trail.resume f) stack

/-- What is done at present is in step with the trail. -/
def Does (trail : Trail) (stack : List Frame) : Control → Prop
  | .nodes nodes => Lined nodes ∧ InStep false trail stack
  | .node n =>
    Lined [n] ∧ trail.node? = some n ∧ trail.latest? = some n ∧ InStep false trail stack
  | .template t => t.toTemplate.Parsed ∧ trail.Entering ∧ InStep true trail stack
  | .program tag body _ _ => Lined body ∧ trail.Runs tag ∧ InStep false trail stack
  | .ended _ => InStep true trail stack

theorem InStep.ne_nil {fresh : Bool} (h : InStep fresh trail stack) : trail ≠ [] := by
  rintro rfl
  induction stack generalizing fresh with
  | nil => cases h
  | cons f stack ih => cases f <;> exact ih h.2

theorem InStep.fresh (h : InStep false trail stack) : InStep true trail stack := by
  cases stack with
  | nil => exact h
  | cons f stack =>
    refine ⟨?_, h.2⟩
    cases f with
    | items => exact absurd h.1.1 Bool.false_ne_true
    | _ => exact h.1

/-- Which node was begun last in the innermost template does not matter to what waits in it. -/
theorem InStep.latest {latest latest' : Option Node} {t : Template} {running : List Node}
    (h : InStep false (⟨t, running, latest⟩ :: outer) stack) :
    InStep false (⟨t, running, latest'⟩ :: outer) stack := by
  induction stack generalizing running with
  | nil => exact h
  | cons f stack ih =>
    cases f with
    | items => exact absurd h.1.1 Bool.false_ne_true
    | template => exact h
    | _ => exact ⟨h.1, ih h.2⟩

theorem InStep.cons {fresh : Bool} (h : InStep false trail stack) (hf : trail.Holds fresh f)
    (hr : trail.resume f = trail) (hl : f.leaves = false) : InStep fresh trail (f :: stack) := by
  refine ⟨hf, ?_⟩
  rw [hr, hl]
  exact h

/-- As many templates are on the trail as have been entered and not left, and the first one. -/
theorem InStep.length_eq {fresh : Bool} (h : InStep fresh trail stack) :
    trail.length = Machine.active.entered stack + 1 := by
  induction stack generalizing fresh trail with
  | nil => exact h
  | cons f stack ih =>
    have hr := ih h.2
    cases trail with
    | nil => exact absurd rfl h.ne_nil
    | cons a outer =>
      cases f with
      | template => exact congrArg (· + 1) hr
      | _ => exact hr

/-- In every template around the innermost one, a tag that enters templates is executed. -/
theorem InStep.around {fresh : Bool} (h : InStep fresh trail stack) :
    ∀ a ∈ trail.tail, ∃ n, a.running.head? = some n ∧ n.target?.isSome := by
  induction stack generalizing fresh trail with
  | nil =>
    obtain ⟨a, rfl⟩ := List.length_eq_one_iff.1 h
    exact List.forall_mem_nil _
  | cons f stack ih =>
    have hr := ih h.2
    cases trail with
    | nil => exact absurd rfl h.ne_nil
    | cons a outer =>
      cases f with
      | template place line =>
        obtain ⟨-, -, n, hn, -, ht, -⟩ := h.1
        cases outer with
        | nil => exact List.forall_mem_nil _
        | cons b rest => exact List.forall_mem_cons.2 ⟨⟨n, hn, ht⟩, hr⟩
      | _ => exact hr

/-! ## What begins and what is entered -/

theorem name_cons (ho : outer ≠ []) :
    name (a :: outer) = (nonEmpty? a.template.name).or (name outer) := by
  cases outer with
  | nil => exact absurd rfl ho
  | cons b rest => rfl

theorem name_congr {b : Activation} (h : a.template = b.template) :
    name (a :: outer) = name (b :: outer) := by
  cases outer with
  | nil => exact congrArg Template.name h
  | cons c rest => rw [name_cons (List.cons_ne_nil _ _), name_cons (List.cons_ne_nil _ _), h]

theorem At.congr {b : Activation} (h : At (a :: outer) place) (ht : a.template = b.template) :
    At (b :: outer) place := by
  obtain ⟨p, hp, hn, hc⟩ := h
  exact ⟨p, hp, hn.trans (name_congr ht), hc⟩

theorem Entering.line_eq (h : trail.Entering) :
    ∃ n, trail.node? = some n ∧ trail.line = n.pos.line ∧ 0 < trail.line := by
  obtain ⟨n, hn, hl, -, hp⟩ := h
  have hline : trail.line = n.pos.line := by
    rw [line, hl]
    rfl
  exact ⟨n, hn, hline, hline ▸ Int.natCast_pos.2 hp⟩

/-- A place from which a template is entered shows in the chain. -/
theorem stackAt_eq {p : Place} (hn : p.template = trail.name) (hc : p.stack = trail.chain)
    (he : trail.Entering) : p.stackAt trail.line = trail.chain ++ trail.entry := by
  obtain ⟨n, hnode, hline, hp⟩ := he.line_eq
  unfold Place.stackAt entry
  rw [hn, hc, hnode]
  cases nonEmpty? trail.name with
  | none => exact (List.append_nil _).symm
  | some name =>
    dsimp only
    rw [if_pos hp, hline]

theorem At.enter (h : trail.At place) (he : trail.Entering) (ht : trail ≠ []) (t : Loaded)
    (s : Setting) (hs : s.place = place) :
    (trail.enter t.toTemplate).At (some (Run.placeOf s trail.line t)) := by
  obtain ⟨p, hp, hn, hc⟩ := h
  refine ⟨p.child trail.line t.name (some t.source), ?_, ?_, stackAt_eq hn hc he⟩
  · rw [Run.placeOf, hs, hp]
  · rw [Trail.enter, name_cons ht, ← hn]
    rfl

end Trail

namespace Machine

/-- A machine that is in step with a trail. -/
structure Tracks (m : Machine) (trail : Trail) : Prop where
  place : trail.At m.place
  line : m.state.line = trail.line
  begun : trail.Begun
  does : trail.Does m.stack m.control

namespace Tracks

variable {engine : Engine} {m m' : Machine} {trail : Trail} {n : Node}

/-- Whatever is done at present, what waits is in step with the trail. -/
theorem inStep (h : m.Tracks trail) : ∃ fresh, trail.InStep fresh m.stack := by
  have hd := h.does
  cases hc : m.control with
  | nodes nodes => rw [hc] at hd; exact ⟨_, hd.2⟩
  | node n => rw [hc] at hd; exact ⟨_, hd.2.2.2⟩
  | template t => rw [hc] at hd; exact ⟨_, hd.2.2⟩
  | program tag body p pending => rw [hc] at hd; exact ⟨_, hd.2.2⟩
  | ended how => rw [hc] at hd; exact ⟨_, hd⟩

/-- What stays at its place and on its line, and does not touch the trail. -/
theorem goOn (h : m.Tracks trail) (hp : m'.place = m.place) (hl : m'.state.line = m.state.line)
    (hd : trail.Does m'.stack m'.control) : m'.Tracks trail :=
  ⟨hp ▸ h.place, hl.trans h.line, h.begun, hd⟩

theorem begin {rest : List Node} (h : m.Tracks trail) (hc : m.control = .nodes (n :: rest)) :
    { m.wait (.behind rest) with
      control := .node n
      state := { m.state with line := n.pos.line } }.Tracks (trail.begin n) := by
  have hd := h.does
  rw [hc] at hd
  obtain ⟨hn, hs⟩ := hd
  obtain ⟨hn, hr⟩ := placed_cons.1 hn
  cases trail with
  | nil => exact absurd rfl hs.ne_nil
  | cons a outer =>
    have hpos : 0 < n.pos.line := (placed_singleton.1 hn).1
    exact ⟨h.place.congr rfl, rfl, fun _ => ⟨n, rfl, hpos⟩, hn, rfl, rfl, ⟨hr, rfl⟩, hs.latest⟩

theorem node (h : m.Tracks trail) (hc : m.control = .node n) (hs : m.state.shelf.Parsed)
    (engine : Engine) : (m.node engine n).Tracks trail := by
  have hd := h.does
  rw [hc] at hd
  obtain ⟨hn, hnode, hlatest, hw⟩ := hd
  have hled := led_node hs engine n
  obtain ⟨frames, hst, hl⟩ := hled.leads
  have entering (ht : n.target?.isSome) : trail.Entering :=
    ⟨n, hnode, hlatest, ht, (placed_singleton.1 hn).1⟩
  refine h.goOn hled.place hled.line ?_
  rw [hst]
  generalize (m.node engine n).control = control at hl
  cases hl with
  | ended how => exact hw.fresh
  | body hb => exact ⟨hn.bodies hb, hw⟩
  | captured name output hb => exact ⟨hn.bodies hb, hw.cons trivial rfl rfl⟩
  | visits l target items hb =>
    exact (hw.cons (f := .block) trivial rfl rfl).cons (hn.bodies hb) rfl rfl
  | items l called items ht hp =>
    exact (hw.cons (f := .block) trivial rfl rfl).cons ⟨rfl, hp, entering ht⟩ rfl rfl
  | included ht hp => exact ⟨hp, entering ht, hw.cons trivial rfl rfl⟩
  | alone around locals positions ht hp => exact ⟨hp, entering ht, hw.cons trivial rfl rfl⟩
  | program p he =>
    subst he
    exact ⟨hn.bodies (.head _), ⟨_, _, _, _, hnode⟩, hw⟩

theorem enter {t : Loaded} (h : m.Tracks trail) (hc : m.control = .template t) (engine : Engine) :
    (m.enter engine t).Tracks (trail.enter t.toTemplate) := by
  have hd := h.does
  rw [hc] at hd
  obtain ⟨hp, he, hw⟩ := hd
  refine ⟨?_, rfl, fun hn => absurd hn Bool.false_ne_true, hp.lined, ⟨h.place, h.line, he⟩, hw⟩
  change (trail.enter t.toTemplate).At (some (Run.placeOf (m.setting engine) m.state.line t))
  rw [h.line]
  exact h.place.enter he hw.ne_nil t (m.setting engine) rfl

theorem program {tag : String} {body : List Node} {p : Program} {pending : Option Signal}
    (h : m.Tracks trail) (hc : m.control = .program tag body p pending) (engine : Engine) :
    (m.program engine tag body p pending).Tracks trail := by
  have hd := h.does
  rw [hc] at hd
  obtain ⟨hb, hr, hw⟩ := hd
  cases p with
  | done v => cases pending <;> exact h.goOn rfl rfl hw.fresh
  | fail e => exact h.goOn rfl rfl hw.fresh
  | look next | assign name v next => exact h.goOn rfl rfl ⟨hb, hr, hw⟩
  | body where_ next =>
    have hhost (output : String) : trail.InStep false (.host tag body next output :: m.stack) :=
      hw.cons ⟨hb, hr⟩ rfl rfl
    cases pending with
    | some signal => exact h.goOn rfl rfl ⟨hb, hr, hw⟩
    | none =>
      cases where_ with
      | here => exact h.goOn rfl rfl ⟨hb, hhost _⟩
      | inside frame => exact h.goOn rfl rfl ⟨hb, (hhost _).cons trivial rfl rfl⟩
      | isolated data => exact h.goOn rfl rfl ⟨hb, (hhost _).cons trivial rfl rfl⟩

theorem resume {f : Frame} {stack : List Frame} {how : Except Stop Unit} (h : m.Tracks trail)
    (hc : m.control = .ended how) (hst : m.stack = f :: stack) :
    ({ m with stack }.resume how f).Tracks (trail.resume f) := by
  have hd := h.does
  rw [hc, hst] at hd
  obtain ⟨hf, hw⟩ := hd
  cases f with
  | behind nodes =>
    obtain ⟨hn, hnode⟩ := hf
    cases trail with
    | nil => exact absurd rfl hw.ne_nil
    | cons a outer =>
      have hb : (Trail.resume (.behind nodes) (a :: outer)).Begun := fun _ => h.begun hnode
      cases how with
      | ok => exact ⟨h.place.congr rfl, h.line, hb, hn, hw⟩
      | error stop => exact ⟨h.place.congr rfl, h.line, hb, hw.fresh⟩
  | template place line =>
    obtain ⟨hp, hl, n, hn, hlatest, -, hpos⟩ := hf
    exact ⟨hp, hl, fun _ => ⟨n, hlatest, hpos⟩, hw⟩
  | block | isolation around locals positions => exact h.goOn rfl rfl hw.fresh
  | captured name output => cases how <;> exact h.goOn rfl rfl hw.fresh
  | visits l target body position items =>
    have hv (rest : List Value) :
        trail.InStep false (.visits l target body (position + 1) rest :: stack) :=
      Trail.InStep.cons hw hf rfl rfl
    rcases how with (_ | _) | _
    case error.signal signal =>
      cases signal with
      | leave => exact h.goOn rfl rfl hw.fresh
      | next => cases items with
        | nil => exact h.goOn rfl rfl hw.fresh
        | cons v rest => exact h.goOn rfl rfl ⟨hf, hv rest⟩
    case error.error e => exact h.goOn rfl rfl hw.fresh
    case ok => cases items with
      | nil => exact h.goOn rfl rfl hw.fresh
      | cons v rest => exact h.goOn rfl rfl ⟨hf, hv rest⟩
  | items l called t position items =>
    obtain ⟨-, ht, he⟩ := hf
    cases how with
    | error stop => exact h.goOn rfl rfl hw.fresh
    | ok => cases items with
      | nil => exact h.goOn rfl rfl hw.fresh
      | cons v rest =>
        have hi : trail.InStep true (.items l called t (position + 1) rest :: stack) :=
          Trail.InStep.cons hw ⟨rfl, ht, he⟩ rfl rfl
        exact h.goOn rfl rfl ⟨ht, he, hi⟩
  | host tag body next output =>
    rcases how with (_ | _) | _
    case error.error e => exact h.goOn rfl rfl hw.fresh
    all_goals exact h.goOn rfl rfl ⟨hf.1, hf.2, hw⟩

end Tracks

variable {engine : Engine} {m m' : Machine} {trail : Trail}

/-- No step breaks the invariant. -/
theorem tracks_step (h : m.Tracks trail) (hs : m.state.shelf.Parsed)
    (hm : m.step engine = some m') : m'.Tracks (trail.next m) := by
  unfold step at hm
  unfold Trail.next
  split at hm
  case h_1 hc =>
    rw [hc]
    cases hm
    have hd := h.does
    rw [hc] at hd
    exact h.goOn rfl rfl hd.2.fresh
  case h_2 n rest hc => rw [hc]; cases hm; exact h.begin hc
  case h_3 n hc => rw [hc]; cases hm; exact h.node hc hs engine
  case h_4 t hc => rw [hc]; cases hm; exact h.enter hc engine
  case h_5 tag body p pending hc => rw [hc]; cases hm; exact h.program hc engine
  case h_6 how hc =>
    split at hm
    · cases hm
    · rename_i f rest hst
      rw [hc, hst]
      cases hm
      exact h.resume hc hst

theorem tracks_start {env : Environment} {t : Template} (ht : t.Parsed) (data : Bindings) :
    (start env t data).Tracks [⟨t, [], none⟩] :=
  ⟨⟨_, rfl, rfl, rfl⟩, rfl, fun hn => absurd hn Bool.false_ne_true, ht.lined, rfl⟩

end Machine

/-- After any steps, whatever the host answers, the machine is in step with the trail. -/
theorem Traced.tracks_run {env : Environment} {t : Template} {data : Bindings} (ht : t.Parsed)
    (hs : env.shelf.Parsed) {r : Traced} (hr : Relation.ReflTransGen Next (start env t data) r) :
    r.machine.Caught ∧ r.machine.Tracks r.trail := by
  induction hr with
  | refl => exact ⟨Machine.caught_start ht hs data, Machine.tracks_start ht data⟩
  | tail _ hn ih =>
    obtain ⟨⟨engine, hm⟩, htrail⟩ := hn
    exact ⟨Machine.caught_step ih.1 hm, htrail ▸ Machine.tracks_step ih.2 ih.1.shelf hm⟩

end Liquid
