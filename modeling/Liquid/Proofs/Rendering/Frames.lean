import Liquid.Proofs.Rendering.Looks

/-!
# Frames are as before

A body may bind what it likes in the frames that it opens; when it has ended, the frames around it
are those that were there before, with the same names bound to the same values, and the place is the
one that it began at.  It does not matter how the body ends, nor what the host answers on the way.

**Invariant.** `Above` follows the stack down to what waited before the body began.  A block stands
on the frames below it with one more, an isolation and a template have put aside what was there
before them, and a loop that stands in a block binds its names in that block only.

* `above_step`: no step breaks the invariant until the body has ended.
* `frames_restored`: a body ends, and then frames and place are as before, and the loops around it
  stand where they stood.
-/
namespace Liquid

/-! ## Runs and the loops that are there -/

namespace Run

variable {α β : Type}

/-- A run that leaves the loops alone that are there when it begins. -/
def Keeps (run : Run α) : Prop :=
  ∀ st n, n ≤ st.positions.size →
    n ≤ (run st).2.positions.size ∧
      (run st).2.positions.toList.take n = st.positions.toList.take n

theorem keeps_of_eq {run : Run α} (h : ∀ st, (run st).2.positions = st.positions) : Keeps run := by
  intro st n hn
  rw [h]
  exact ⟨hn, rfl⟩

theorem keeps_bind {run : Run α} {f : α → Run β} (h : Keeps run) (hf : ∀ x, Keeps (f x)) :
    Keeps (run >>= f) := by
  intro st n hn
  rw [bind_apply]
  rcases hr : run st with ⟨stop | x, st'⟩ <;> have h₁ := hr ▸ h st n hn
  · exact h₁
  · have h₂ := hf x st' n h₁.1
    exact ⟨h₂.1, h₂.2.trans h₁.2⟩

theorem Looks.keeps {run : Run α} (h : Looks run) : Keeps run :=
  keeps_of_eq fun st => by rw [h.state]

theorem keeps_write (text : String) : Keeps (write text) := keeps_of_eq fun _ => rfl

theorem keeps_assign (name : String) (v : Value) : Keeps (assign name v) := keeps_of_eq fun _ => rfl

theorem keeps_beginLoop (length : Int) (parent : Option Loop) : Keeps (beginLoop length parent) := by
  intro st n hn
  simp only [beginLoop, Array.size_push, Array.toList_push]
  refine ⟨by omega, List.take_append_of_le_length ?_⟩
  simpa using hn

theorem keeps_fetch (s : Setting) (tag name : String) : Keeps (fetch s tag name) :=
  keeps_of_eq fun st => by rw [fetch_apply]

theorem keeps_find (s : Setting) (tag : String) (e : Expr) : Keeps (find s tag e) :=
  keeps_bind (looks_eval s e).keeps fun _ =>
    keeps_bind (looks_checkDepth s _).keeps fun _ => keeps_fetch s tag _

/-- A loop that is begun has a number that no loop before it has. -/
theorem id_of_beginItems {s : Setting} {what : Inclusion} {e : Expr} {st st' : State}
    {r : Bindings × List Value × Loop} (h : beginItems s what e st = (.ok r, st')) {n : Nat}
    (hn : n ≤ st.positions.size) : n ≤ r.2.2.id := by
  unfold beginItems at h
  rw [bind_apply] at h
  split at h
  · rename_i bindings st₁ hb
    rw [bind_apply] at h
    split at h
    · rename_i items st₂ hi
      cases h
      have h₁ := (hb ▸ (looks_evalBindings s what.bindings).keeps st n hn).1
      exact (hi ▸ (looks_evalItems s e).keeps st₁ n h₁).1
    · cases h
  · cases h

theorem keeps_beginItems (s : Setting) (what : Inclusion) (e : Expr) :
    Keeps (beginItems s what e) :=
  keeps_bind (looks_evalBindings s _).keeps fun _ =>
    keeps_bind (looks_evalItems s e).keeps fun _ =>
      keeps_bind (keeps_beginLoop _ _) fun _ => (looks_pure _).keeps

end Run

namespace Machine

/-! ## The invariant -/

/-- A stack above that of another machine, with the frames, the place and the loops that stand on
it.  The first loops, so many as the number says, are those of the other machine; in isolation they
are put aside, and then there are none to leave alone. -/
inductive Above (b : Machine) :
    Nat → List Frame → Surroundings → Option Place → Positions → Prop where
  | base {positions} :
    b.state.positions.size ≤ positions.size →
    positions.toList.take b.state.positions.size = b.state.positions.toList →
    Above b b.state.positions.size b.stack b.around b.place positions
  | behind {n stack around place positions nodes} :
    Above b n stack around place positions →
    Above b n (.behind nodes :: stack) around place positions
  | block {n stack around place positions} (frame : Bindings) :
    Above b n stack around place positions →
    Above b n (.block :: stack) (around.push frame) place positions
  | isolation {n stack around place positions locals} (inner : Surroundings) (loops : Positions) :
    Above b n stack around place positions →
    Above b 0 (.isolation around locals positions :: stack) inner place loops
  | template {n stack around place positions line} (inner : Option Place) :
    Above b n stack around place positions →
    Above b n (.template place line :: stack) around inner positions
  | visits {n stack around place positions l target body position items} (frame : Bindings) :
    n ≤ l.id → Above b n stack around place positions →
    Above b n (.visits l target body position items :: .block :: stack) (around.push frame) place
      positions
  | items {n stack around place positions l called t position items} (frame : Bindings) :
    n ≤ l.id → Above b n stack around place positions →
    Above b n (.items l called t position items :: .block :: stack) (around.push frame) place
      positions
  | captured {n stack around place positions name output} :
    Above b n stack around place positions →
    Above b n (.captured name output :: stack) around place positions
  | host {n stack around place positions tag body next output} :
    Above b n stack around place positions →
    Above b n (.host tag body next output :: stack) around place positions

/-- A machine that stands above another. -/
def StandsOn (b m : Machine) : Prop := ∃ n, Above b n m.stack m.around m.place m.state.positions

/-- A body that began on a machine has ended. -/
def EndedOn (b m : Machine) : Prop := m.stack = b.stack ∧ ∃ how, m.control = .ended how

/-- A step before a body has ended. -/
def Within (engine : Engine) (b m m' : Machine) : Prop :=
  ¬ EndedOn b m ∧ m.step engine = some m'

/-- A step before a body has ended, whatever the host answers. -/
def Inside (b m m' : Machine) : Prop := ∃ engine, Within engine b m m'

variable {b m m' : Machine} {n : Nat} {stack : List Frame} {around : Surroundings}
  {place : Option Place} {positions : Positions}

theorem Above.length_le (h : Above b n stack around place positions) :
    b.stack.length ≤ stack.length := by
  induction h with
  | base => exact Nat.le_refl _
  | _ => simp only [List.length_cons]; omega

theorem Above.size_le (h : Above b n stack around place positions) : n ≤ positions.size := by
  induction h with
  | base hs _ => exact hs
  | isolation => exact Nat.zero_le _
  | behind _ ih | block _ _ ih | template _ _ ih | visits _ _ _ ih | items _ _ _ ih
  | captured _ ih | host _ ih => exact ih

/-- What begins and moves other loops does not matter to the machine below. -/
theorem Above.of_take (h : Above b n stack around place positions) {positions' : Positions}
    (hs : n ≤ positions'.size) (ht : positions'.toList.take n = positions.toList.take n) :
    Above b n stack around place positions' := by
  induction h with
  | base _ h => exact .base hs (ht.trans h)
  | behind _ ih => exact .behind (ih hs ht)
  | block frame _ ih => exact .block frame (ih hs ht)
  | isolation inner _ h _ => exact .isolation inner positions' h
  | template inner _ ih => exact .template inner (ih hs ht)
  | visits frame hl _ ih => exact .visits frame hl (ih hs ht)
  | items frame hl _ ih => exact .items frame hl (ih hs ht)
  | captured _ ih => exact .captured (ih hs ht)
  | host _ ih => exact .host (ih hs ht)

theorem Above.moved (h : Above b n stack around place positions) {id : Nat} (hl : n ≤ id)
    (position : Option Int) :
    Above b n stack around place (positions.setIfInBounds id position) := by
  refine h.of_take ?_ ?_
  · simpa using h.size_le
  · rw [Array.toList_setIfInBounds, List.take_set_of_le hl]

/-- Where a body has ended, all is as it was when it began. -/
theorem Above.same (h : Above b n b.stack around place positions) :
    around = b.around ∧ place = b.place ∧
      positions.toList.take b.state.positions.size = b.state.positions.toList := by
  generalize hs : b.stack = stack at h
  cases h with
  | base _ ht => exact ⟨rfl, rfl, ht⟩
  | behind h | block _ h | isolation _ _ h | template _ h | visits _ _ h | items _ _ h | captured h
  | host h =>
    have hl := h.length_le
    rw [hs] at hl
    simp only [List.length_cons] at hl
    omega

theorem standsOn_perform {α : Type} {run : Run α} {next : Machine → α → Machine}
    (hr : run.Keeps) (h : Above b n m.stack m.around m.place m.state.positions)
    (hn : ∀ x st, run m.state = (.ok x, st) → Above b n m.stack m.around m.place st.positions →
      StandsOn b (next { m with state := st } x)) :
    StandsOn b (m.perform run next) := by
  have hk := hr m.state n h.size_le
  unfold perform
  rcases hst : run m.state with ⟨stop | x, st⟩ <;> rw [hst] at hk
  · exact ⟨n, h.of_take hk.1 hk.2⟩
  · exact hn x st hst (h.of_take hk.1 hk.2)

theorem standsOn_done {run : Run Unit} (hr : run.Keeps)
    (h : Above b n m.stack m.around m.place m.state.positions) :
    StandsOn b (m.perform run fun m () => m.done) :=
  standsOn_perform hr h fun _ _ _ h => ⟨n, h⟩

/-! ## Steps -/

theorem standsOn_node (h : Above b n m.stack m.around m.place m.state.positions) (engine : Engine)
    (x : Node) : StandsOn b (m.node engine x) := by
  let s := m.setting engine
  cases x with
  | text pos text | raw pos text => exact standsOn_done (Run.keeps_write text) h
  | assign pos name e filters =>
    exact standsOn_done (Run.keeps_bind (Run.looks_evalFiltered s e filters).keeps fun _ =>
      Run.keeps_assign name _) h
  | comment pos text | signal pos signal => exact ⟨n, h⟩
  | capture pos name body => exact ⟨n, .captured h⟩
  | output pos e filters standalone source =>
    cases e with
    | none => exact ⟨n, h⟩
    | some e =>
      exact standsOn_done (Run.keeps_bind (Run.looks_evalFiltered s e filters).keeps fun _ =>
        Run.keeps_write _) h
  | conditional pos negated test body branches otherwise =>
    exact standsOn_perform (Run.looks_chooseBody s negated test body branches otherwise).keeps h
      fun _ _ _ h => ⟨n, h⟩
  | choice pos subject whens otherwise =>
    exact standsOn_perform (Run.keeps_bind (Run.looks_eval s subject).keeps fun v =>
      (Run.looks_chooseWhen s v otherwise whens).keeps) h fun _ _ _ h => ⟨n, h⟩
  | loop pos head body otherwise =>
    simp only [node]
    refine standsOn_perform (Run.looks_loopItems s head).keeps h fun items st _ h => ?_
    cases items with
    | nil => exact ⟨n, h⟩
    | cons v rest =>
      refine standsOn_perform (Run.keeps_bind (Run.looks_look s).keeps fun _ =>
        Run.keeps_beginLoop _ _) h fun l st' hl h' => ?_
      cases hl
      exact ⟨n, .visits _ h.size_le h'⟩
  | «include» pos what each =>
    simp only [node]
    refine standsOn_perform (Run.keeps_find s "include" _) h fun t st _ h => ?_
    cases each with
    | none =>
      exact standsOn_perform (Run.looks_evalGiven s what t).keeps h fun _ _ _ h => ⟨n, .block _ h⟩
    | some e =>
      refine standsOn_perform (Run.keeps_beginItems s what e) h fun r st' hr h' => ?_
      exact ⟨n, .items _ (Run.id_of_beginItems hr h.size_le) h'⟩
  | render pos what =>
    simp only [node]
    refine standsOn_perform (Run.keeps_find s "render" _) h fun t st _ h => ?_
    exact standsOn_perform (Run.looks_evalGiven s what t).keeps h fun _ _ _ h =>
      ⟨0, .isolation _ _ h⟩
  | tag pos name arguments body markup =>
    simp only [node]
    cases engine.tags.get? name with
    | none => exact standsOn_done (Run.looks_unknownTag s name).keeps h
    | some tag =>
      exact standsOn_perform (Run.looks_evalArguments s arguments).keeps h fun _ _ _ h => ⟨n, h⟩

theorem standsOn_program (h : Above b n m.stack m.around m.place m.state.positions)
    (engine : Engine) (tag : String) (body : List Node) (p : Program) (pending : Option Signal) :
    StandsOn b (m.program engine tag body p pending) := by
  cases p with
  | done v => cases pending <;> exact standsOn_done (Run.keeps_write v.toText) h
  | fail e | look next | assign name v next => exact ⟨n, h⟩
  | body where_ next =>
    cases pending with
    | some sg => exact ⟨n, h⟩
    | none =>
      cases where_ with
      | here => exact ⟨n, .host h⟩
      | inside frame => exact ⟨n, .block frame (.host h)⟩
      | isolated data => exact ⟨0, .isolation _ _ (.host h)⟩

theorem standsOn_resume {f : Frame} (hb : f :: m.stack ≠ b.stack)
    (h : Above b n (f :: m.stack) m.around m.place m.state.positions) (how : Except Stop Unit) :
    StandsOn b (m.resume how f) := by
  generalize hst : f :: m.stack = stack at h
  generalize har : m.around = around at h
  generalize hpl : m.place = place at h
  generalize hpo : m.state.positions = positions at h
  cases h with
  | base => exact absurd hst hb
  | behind h =>
    cases hst
    subst har hpl hpo
    cases how <;> exact ⟨n, h⟩
  | block frame h =>
    cases hst
    subst hpl hpo
    refine ⟨n, ?_⟩
    simp only [resume, endWith, har, Surroundings.pop_push]
    exact h
  | isolation inner loops h =>
    cases hst
    subst hpl
    exact ⟨_, h⟩
  | template inner h =>
    cases hst
    subst har hpo
    exact ⟨n, h⟩
  | captured h =>
    cases hst
    subst har hpl hpo
    cases how <;> exact ⟨n, h⟩
  | host h =>
    cases hst
    subst har hpl hpo
    rcases how with (_ | _) | _ <;> exact ⟨n, h⟩
  | @visits _ _ around _ _ l target body position items frame hl h =>
    obtain ⟨rfl, hbl⟩ := List.cons.inj hst
    subst hpl hpo
    have hc : Above b n m.stack m.around m.place m.state.positions := by
      rw [hbl, har]
      exact .block frame h
    have hv (v : Value) (rest : List Value) :
        Above b n (.visits l target body (position + 1) rest :: m.stack) (m.around.bind target v)
          m.place (m.state.positions.setIfInBounds l.id (some position)) := by
      rw [hbl, har, Surroundings.bind_push]
      exact .visits _ hl (h.moved hl _)
    rcases how with (_ | _) | _
    case error.signal sg =>
      cases sg with
      | leave => exact ⟨n, hc⟩
      | next => cases items with
        | nil => exact ⟨n, hc⟩
        | cons v rest => exact ⟨n, hv v rest⟩
    case error.error e => exact ⟨n, hc⟩
    case ok => cases items with
      | nil => exact ⟨n, hc⟩
      | cons v rest => exact ⟨n, hv v rest⟩
  | @items _ _ around _ _ l called t position items frame hl h =>
    obtain ⟨rfl, hbl⟩ := List.cons.inj hst
    subst hpl hpo
    have hc : Above b n m.stack m.around m.place m.state.positions := by
      rw [hbl, har]
      exact .block frame h
    cases how with
    | error stop => exact ⟨n, hc⟩
    | ok => cases items with
      | nil => exact ⟨n, hc⟩
      | cons v rest =>
        refine ⟨n, ?_⟩
        change Above b n (.items l called t (position + 1) rest :: m.stack)
          (m.around.bind called v) m.place (m.state.positions.setIfInBounds l.id (some position))
        rw [hbl, har, Surroundings.bind_push]
        exact .items _ hl (h.moved hl _)

/-- No step breaks the invariant until the body has ended. -/
theorem above_step (h : StandsOn b m) (hs : Inside b m m') : StandsOn b m' := by
  obtain ⟨engine, hb, hs⟩ := hs
  obtain ⟨n, h⟩ := h
  unfold step at hs
  split at hs
  case h_1 => cases hs; exact ⟨n, h⟩
  case h_2 => cases hs; exact ⟨n, .behind h⟩
  case h_3 x _ => cases hs; exact standsOn_node h engine x
  case h_4 t _ => cases hs; exact ⟨n, .template _ h⟩
  case h_5 tag body p pending _ => cases hs; exact standsOn_program h engine tag body p pending
  case h_6 how hc =>
    split at hs
    · cases hs
    · rename_i f rest hst
      cases hs
      exact standsOn_resume (fun he => hb ⟨hst.trans he, how, hc⟩) (hst ▸ h) how

theorem above_run {nodes : List Node}
    (hs : Relation.ReflTransGen (Inside b) (b.goOn nodes) m) : StandsOn b m := by
  induction hs with
  | refl =>
    refine ⟨_, .base (Nat.le_refl _) (List.take_of_length_le ?_)⟩
    exact Nat.le_refl _
  | tail _ hn ih => exact above_step ih hn

/-- Nodes come to an end, with the outcome of the renderer, and with every outcome the frames and
the place are those that were there before, and the loops that were there stand where they stood.
This is so whatever the host answers on the way. -/
theorem frames_restored (m : Machine) (nodes : List Node) :
    (∀ engine, Steps engine (m.goOn nodes)
      (m.back (renderNodes (below (levelsAt m.place)) (m.setting engine) nodes m.state))) ∧
    ∀ m', Relation.ReflTransGen (Inside m) (m.goOn nodes) m' → EndedOn m m' →
      m'.around = m.around ∧ m'.place = m.place ∧
        m'.state.positions.toList.take m.state.positions.size = m.state.positions.toList := by
  refine ⟨fun engine => steps_nodes engine m nodes, fun m' hs he => ?_⟩
  obtain ⟨n, h⟩ := above_run hs
  rw [he.1] at h
  exact h.same

end Machine

end Liquid
