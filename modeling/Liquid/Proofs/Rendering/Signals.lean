import Liquid.Proofs.Reading.Signals
import Liquid.Proofs.Reading.Spelling
import Liquid.Proofs.Rendering.Alike
import Liquid.Proofs.Rendering.Frames
import Liquid.Proofs.Rendering.Looks
import Liquid.Proofs.Rendering.Pages
import Mathlib

/-!
# Every signal is caught

Where a signal may stand is checked when a template is read; which loop takes it is found out when
it is rendered, from what waits at that point.  The two agree.

**Invariant.** What waits follows the text.  The nodes that are rendered or that wait stand in the
body of the innermost loop that waits in the same template, and in no loop body within it; where no
loop waits in that template, they hold no signal outside loops of their own.

* `home`: the body of the innermost loop that waits in the template.
* `caught_step`, `caught_run`: no step breaks the invariant.
* `signals_caught`: a signal goes to the loop in whose body it stands, and never to the end of a
  template.
-/
namespace Liquid

open Node

/-- A template whose nodes are those of some source. -/
def Template.Parsed (t : Template) : Prop := ∃ tags source, parse tags source = .ok t.nodes

/-- A shelf on which every template was read from some source. -/
def Shelf.Parsed (shelf : Shelf) : Prop :=
  ∀ name t, (name, t) ∈ shelf.cache.entries → t.toTemplate.Parsed

theorem Template.Parsed.closed {t : Template} (h : t.Parsed) : Closed t.nodes := by
  obtain ⟨tags, source, h⟩ := h
  exact closed_of_parse h

theorem Engine.parsed_of_load {engine : Engine} {name : String} {t : Template}
    (h : engine.load name = .ok t) : t.Parsed := by
  unfold load at h
  split at h
  · cases h
  · rename_i loader _
    cases hs : loader.load name with
    | error e => rw [hs] at h; cases h
    | ok source =>
      rw [hs] at h
      change engine.read source.text (some name) source.filename = .ok t at h
      unfold read at h
      cases hr : Template.read engine.tagBlocks source.text (some name) source.filename with
      | error e => rw [hr] at h; cases h
      | ok t' =>
        rw [hr] at h
        cases h
        exact ⟨_, _, Template.read_nodes hr⟩

theorem Engine.parsed_fetch {shelf : Shelf} (h : shelf.Parsed) (engine : Engine) (name : String) :
    (engine.fetch name shelf).2.Parsed ∧
      ∀ t, (engine.fetch name shelf).1 = .ok t → t.toTemplate.Parsed :=
  forall_fetch h fun _ ht => parsed_of_load ht

/-! ## Runs -/

namespace Run

variable {α β : Type}

/-- A run that gives no signal, and after which every template on the shelf was read from some
source if that was so before. -/
def Safe (run : Run α) : Prop :=
  ∀ st, st.shelf.Parsed →
    (run st).2.shelf.Parsed ∧ ∀ signal, (run st).1 ≠ .error (.signal signal)

theorem Looks.safe {run : Run α} (h : Looks run) : Safe run := by
  intro st hs
  rw [h.state]
  exact ⟨hs, fun _ he => h.not_signal (Prod.ext he rfl)⟩

theorem safe_bind {run : Run α} {f : α → Run β} (h : Safe run) (hf : ∀ x, Safe (f x)) :
    Safe (run >>= f) := by
  intro st hs
  rw [bind_apply]
  have h₁ := h st hs
  rcases hr : run st with ⟨(signal | e) | x, st'⟩ <;> rw [hr] at h₁
  · exact absurd rfl (h₁.2 signal)
  · exact ⟨h₁.1, fun _ he => nomatch he⟩
  · exact hf x st' h₁.1

theorem safe_write (text : String) : Safe (write text) := fun _ hs => ⟨hs, fun _ h => nomatch h⟩

theorem safe_assign (name : String) (v : Value) : Safe (assign name v) :=
  fun _ hs => ⟨hs, fun _ h => nomatch h⟩

theorem safe_moveTo (l : Loop) (position : Int) : Safe (moveTo l position) :=
  fun _ hs => ⟨hs, fun _ h => nomatch h⟩

theorem safe_beginLoop (length : Int) (parent : Option Loop) : Safe (beginLoop length parent) :=
  fun _ hs => ⟨hs, fun _ h => nomatch h⟩

theorem safe_beginItems (s : Setting) (what : Inclusion) (e : Expr) : Safe (beginItems s what e) :=
  safe_bind (looks_evalBindings s _).safe fun _ =>
    safe_bind (looks_evalItems s e).safe fun _ =>
      safe_bind (safe_beginLoop _ _) fun _ => (looks_pure _).safe

theorem safe_fetch (s : Setting) (tag name : String) : Safe (fetch s tag name) := by
  intro st hs
  rw [fetch_apply]
  refine ⟨(Engine.parsed_fetch hs s.engine name).1, fun signal => ?_⟩
  cases (s.engine.fetch name st.shelf).1 <;> exact fun h => nomatch h

theorem safe_find (s : Setting) (tag : String) (e : Expr) : Safe (find s tag e) :=
  safe_bind (looks_eval s e).safe fun _ =>
    safe_bind (looks_checkDepth s _).safe fun _ => safe_fetch s tag _

/-- A template that is found was read from some source. -/
theorem parsed_of_find {s : Setting} {tag : String} {e : Expr} {t : Loaded} {st st' : State}
    (h : find s tag e st = (.ok t, st')) (hs : st.shelf.Parsed) : t.toTemplate.Parsed := by
  obtain ⟨v, -, hf⟩ := fetch_of_find h
  rw [fetch_apply] at hf
  have hp := (Engine.parsed_fetch hs s.engine v.toText).2
  generalize (s.engine.fetch v.toText st.shelf).1 = found at hf hp
  cases found with
  | error f => cases hf
  | ok u => cases hf; exact hp t rfl

end Run

namespace Frame

/-- Whether what has ended ends also for what waits behind, however it ended. -/
def passes : Frame → Bool
  | .visits _ _ _ _ _ | .template _ _ | .items _ _ _ _ _ => false
  | _ => true

/-- Whether a tag of the host waits for its body. -/
def isHost : Frame → Bool
  | .host _ _ _ _ => true
  | _ => false

/-- Whether a template waits to be left, or to be rendered for its next item. -/
def isTemplate : Frame → Bool
  | .template _ _ | .items _ _ _ _ _ => true
  | _ => false

end Frame

namespace Machine

/-! ## The invariant -/

/-- The body of the innermost loop that waits in the template. -/
def home : List Frame → Option (List Node)
  | [] => none
  | .visits _ _ body _ _ :: _ => some body
  | .template _ _ :: _ | .items _ _ _ _ _ :: _ => none
  | _ :: stack => home stack

/-- Nodes that stand in the body of a loop, if there is one, and in no loop body within it. -/
def Belong : Option (List Node) → List Node → Prop
  | none, nodes => Closed nodes
  | some body, nodes => ∀ n ∈ nodes, In body n

/-- What waits follows the text. -/
def Waits : List Frame → Prop
  | [] => True
  | .behind nodes :: stack => Belong (home stack) nodes ∧ Waits stack
  | .host _ body _ _ :: stack => Belong (home stack) body ∧ Waits stack
  | .items _ _ t _ _ :: stack => Closed t.nodes ∧ Waits stack
  | _ :: stack => Waits stack

/-- What is done at present follows the text, and a signal has a loop that waits for it. -/
def Follows (home : Option (List Node)) : Control → Prop
  | .nodes nodes => Belong home nodes
  | .node n => Belong home [n]
  | .template t => Closed t.nodes
  | .program _ body _ pending => Belong home body ∧ (pending.isSome = true → home.isSome = true)
  | .ended (.error (.signal _)) => home.isSome = true
  | .ended _ => True

/-- A machine at which every signal has a loop that waits for it. -/
structure Caught (m : Machine) : Prop where
  waits : Waits m.stack
  shelf : m.state.shelf.Parsed
  follows : Follows (home m.stack) m.control

variable {engine : Engine} {m m' : Machine} {h : Option (List Node)} {n : Node}
  {nodes body : List Node}

theorem Belong.head (hb : Belong h (n :: nodes)) : Belong h [n] := by
  cases h with
  | none => exact (closed_cons.1 hb).1
  | some root => exact List.forall_mem_singleton.2 (hb n (.head _))

theorem Belong.tail (hb : Belong h (n :: nodes)) : Belong h nodes := by
  cases h with
  | none => exact (closed_cons.1 hb).2
  | some root => exact (List.forall_mem_cons.1 hb).2

theorem Belong.part (hb : Belong h [n]) (hp : body ∈ n.parts) : Belong h body := by
  cases h with
  | none => exact (closed_iff.1 hb n (.head _)).2 body hp
  | some root => exact fun x hx => .part (hb n (.head _)) hp hx

theorem belong_self : Belong (some body) body := fun _ hn => .here hn

/-- A signal that is rendered has a loop that waits for it. -/
theorem Belong.signal {pos : Position} {signal : Signal} (hb : Belong h [.signal pos signal]) :
    ∃ root, h = some root ∧ In root (.signal pos signal) := by
  cases h with
  | none => exact absurd (.here (.head _)) (hb pos signal)
  | some root => exact ⟨root, rfl, hb _ (.head _)⟩

theorem caught_perform {α : Type} {run : Run α} {next : Machine → α → Machine}
    (hr : run.Safe) (hw : Waits m.stack) (hs : m.state.shelf.Parsed)
    (hn : ∀ x st, run m.state = (.ok x, st) → st.shelf.Parsed →
      (next { m with state := st } x).Caught) : (m.perform run next).Caught := by
  have h := hr m.state hs
  unfold perform
  rcases hst : run m.state with ⟨(signal | e) | x, st⟩ <;> rw [hst] at h
  · exact absurd rfl (h.2 signal)
  · exact ⟨hw, h.1, trivial⟩
  · exact hn x st hst h.1

theorem caught_done {run : Run Unit} (hr : run.Safe) (hw : Waits m.stack)
    (hs : m.state.shelf.Parsed) : (m.perform run fun m () => m.done).Caught :=
  caught_perform hr hw hs fun _ _ _ hs => ⟨hw, hs, trivial⟩

/-! ## Steps -/

theorem caught_node (hw : Waits m.stack) (hs : m.state.shelf.Parsed)
    (hb : Belong (home m.stack) [n]) (engine : Engine) : (m.node engine n).Caught := by
  let s := m.setting engine
  cases n with
  | text pos text | raw pos text => exact caught_done (Run.safe_write text) hw hs
  | assign pos name e filters =>
    exact caught_done (Run.safe_bind (Run.looks_evalFiltered s e filters).safe fun _ =>
      Run.safe_assign name _) hw hs
  | comment pos text => exact ⟨hw, hs, trivial⟩
  | signal pos signal =>
    obtain ⟨root, hh, -⟩ := hb.signal
    exact ⟨hw, hs, congrArg Option.isSome hh⟩
  | capture pos name body => exact ⟨hw, hs, hb.part (.head _)⟩
  | output pos e filters standalone source =>
    cases e with
    | none => exact ⟨hw, hs, trivial⟩
    | some e =>
      exact caught_done (Run.safe_bind (Run.looks_evalFiltered s e filters).safe fun _ =>
        Run.safe_write _) hw hs
  | conditional pos negated test body branches otherwise =>
    refine caught_perform (Run.looks_chooseBody s negated test body branches otherwise).safe hw hs
      fun chosen st hr hs => ⟨hw, hs, hb.part ?_⟩
    have hc := Run.mem_of_chooseBody hr
    simpa [Node.parts, eq_comm] using hc
  | choice pos subject whens otherwise =>
    have hl : Run.Looks (do Run.chooseWhen s (← Run.eval s subject) otherwise whens) :=
      Run.looks_bind (Run.looks_eval s subject) fun v => Run.looks_chooseWhen s v otherwise whens
    refine caught_perform hl.safe hw hs fun chosen st hr hs => ⟨hw, hs, hb.part ?_⟩
    rw [Run.bind_apply] at hr
    split at hr
    · have hc := Run.mem_of_chooseWhen hr
      simpa [Node.parts, eq_comm] using hc
    · cases hr
  | loop pos head body otherwise =>
    simp only [node]
    refine caught_perform (Run.looks_loopItems s head).safe hw hs fun items st _ hs => ?_
    cases items with
    | nil => exact ⟨hw, hs, hb.part (.head _)⟩
    | cons v rest =>
      refine caught_perform (Run.safe_bind (Run.looks_look s).safe fun _ =>
        Run.safe_beginLoop _ _) hw hs fun l st' _ hs => ?_
      exact ⟨hw, hs, trivial⟩
  | «include» pos what each =>
    simp only [node]
    refine caught_perform (Run.safe_find s "include" _) hw hs fun t st hf hs' => ?_
    have ht : Closed t.nodes := (Run.parsed_of_find hf hs).closed
    cases each with
    | none =>
      exact caught_perform (Run.looks_evalGiven s what t).safe hw hs' fun _ _ _ hs =>
        ⟨hw, hs, ht⟩
    | some e =>
      exact caught_perform (Run.safe_beginItems s what e) hw hs' fun _ _ _ hs =>
        ⟨⟨ht, hw⟩, hs, trivial⟩
  | render pos what =>
    simp only [node]
    refine caught_perform (Run.safe_find s "render" _) hw hs fun t st hf hs' => ?_
    have ht : Closed t.nodes := (Run.parsed_of_find hf hs).closed
    exact caught_perform (Run.looks_evalGiven s what t).safe hw hs' fun _ _ _ hs => ⟨hw, hs, ht⟩
  | tag pos name arguments body markup =>
    simp only [node]
    cases engine.tags.get? name with
    | none => exact caught_done (Run.looks_unknownTag s name).safe hw hs
    | some tag =>
      exact caught_perform (Run.looks_evalArguments s arguments).safe hw hs fun _ _ _ hs =>
        ⟨hw, hs, hb.part (.head _), fun hp => absurd hp Bool.false_ne_true⟩

theorem caught_program (hw : Waits m.stack) (hs : m.state.shelf.Parsed)
    (hb : Belong (home m.stack) body) {pending : Option Signal}
    (hp : pending.isSome = true → (home m.stack).isSome = true) (engine : Engine) (tag : String)
    (p : Program) : (m.program engine tag body p pending).Caught := by
  cases p with
  | done v =>
    simp only [program]
    refine caught_perform (Run.safe_write v.toText) hw hs fun _ _ _ hs => ?_
    cases pending with
    | none => exact ⟨hw, hs, trivial⟩
    | some signal => exact ⟨hw, hs, hp rfl⟩
  | fail e => exact ⟨hw, hs, trivial⟩
  | look next => exact ⟨hw, hs, hb, hp⟩
  | assign name v next => exact ⟨hw, hs, hb, hp⟩
  | body where_ next =>
    cases pending with
    | some signal => exact ⟨hw, hs, hb, hp⟩
    | none => cases where_ <;> exact ⟨⟨hb, hw⟩, hs, hb⟩

theorem caught_resume {f : Frame} (hw : Waits (f :: m.stack)) (hs : m.state.shelf.Parsed)
    {how : Except Stop Unit} (hf : Follows (home (f :: m.stack)) (.ended how)) :
    (m.resume how f).Caught := by
  cases f with
  | behind nodes =>
    cases how with
    | ok => exact ⟨hw.2, hs, hw.1⟩
    | error stop => exact ⟨hw.2, hs, hf⟩
  | block => exact ⟨hw, hs, hf⟩
  | isolation around locals positions => exact ⟨hw, hs, hf⟩
  | template place line => rcases how with _ | _ <;> exact ⟨hw, hs, trivial⟩
  | visits l target body position items =>
    have hv (v : Value) (rest : List Value) : (m.perform (Run.moveTo l position) fun m _ =>
        ({ m with around := m.around.bind target v }.wait
          (.visits l target body (position + 1) rest)).goOn body).Caught :=
      caught_perform (Run.safe_moveTo l position) hw hs fun _ _ _ hs => ⟨hw, hs, belong_self⟩
    rcases how with (_ | _) | _
    case error.signal signal =>
      cases signal with
      | leave => exact ⟨hw, hs, trivial⟩
      | next => cases items with
        | nil => exact ⟨hw, hs, trivial⟩
        | cons v rest => exact hv v rest
    case error.error e => exact ⟨hw, hs, trivial⟩
    case ok => cases items with
      | nil => exact ⟨hw, hs, trivial⟩
      | cons v rest => exact hv v rest
  | items l called t position items =>
    rcases how with (_ | _) | _
    case error.signal signal => cases hf
    case error.error e => exact ⟨hw.2, hs, trivial⟩
    case ok => cases items with
      | nil => exact ⟨hw.2, hs, trivial⟩
      | cons v rest =>
        simp only [resume]
        exact caught_perform (Run.safe_moveTo l position) hw.2 hs fun _ _ _ hs => ⟨hw, hs, hw.1⟩
  | captured name output =>
    cases how with
    | ok => exact caught_done (Run.safe_assign name _) hw hs
    | error stop => exact ⟨hw, hs, hf⟩
  | host tag body next output =>
    rcases how with (_ | _) | _
    case error.signal signal => exact ⟨hw.2, hs, hw.1, fun _ => hf⟩
    case error.error e => exact ⟨hw.2, hs, trivial⟩
    case ok => exact ⟨hw.2, hs, hw.1, fun hp => absurd hp Bool.false_ne_true⟩

/-- No step leaves a signal without a loop that waits for it. -/
theorem caught_step (hc : m.Caught) (hs : m.step engine = some m') : m'.Caught := by
  obtain ⟨hw, hsh, hf⟩ := hc
  unfold step at hs
  split at hs
  case h_1 => cases hs; exact ⟨hw, hsh, trivial⟩
  case h_2 n rest hm =>
    rw [hm] at hf
    cases hs
    exact ⟨⟨hf.tail, hw⟩, hsh, hf.head⟩
  case h_3 n hm => rw [hm] at hf; cases hs; exact caught_node hw hsh hf engine
  case h_4 t hm => rw [hm] at hf; cases hs; exact ⟨hw, hsh, hf⟩
  case h_5 tag body p pending hm =>
    rw [hm] at hf
    cases hs
    exact caught_program hw hsh hf.1 hf.2 engine tag p
  case h_6 how hm =>
    rw [hm] at hf
    split at hs
    · cases hs
    · rename_i f rest hst
      rw [hst] at hw hf
      cases hs
      exact caught_resume (m := { m with stack := rest }) hw hsh hf

theorem caught_run (hc : m.Caught) (hm : Relation.ReflTransGen Next m m') : m'.Caught := by
  induction hm with
  | refl => exact hc
  | tail _ hn ih =>
    obtain ⟨engine, hn⟩ := hn
    exact caught_step ih hn

theorem caught_start {env : Environment} {t : Template} (ht : t.Parsed) (hs : env.shelf.Parsed)
    (data : Bindings) : (start env t data).Caught := ⟨trivial, hs, ht.closed⟩

/-- No signal comes out of nodes that hold none outside loops of their own. -/
theorem not_signal_of_closed {s : Setting} {st : State} (hn : Closed nodes) (hs : st.shelf.Parsed)
    (signal : Signal) :
    (renderNodes (below (levelsAt s.place)) s nodes st).1 ≠ .error (.signal signal) := by
  intro hr
  let m : Machine := ⟨.ended (.ok ()), [], s.around, s.place, st⟩
  have hc : (m.goOn nodes).Caught := ⟨trivial, hs, hn⟩
  have hm : Relation.ReflTransGen Next (m.goOn nodes)
      (m.back (renderNodes (below (levelsAt s.place)) s nodes st)) :=
    Relation.ReflTransGen.mono (fun _ _ h => ⟨s.engine, h⟩) _ _ (steps_nodes s.engine m nodes)
  have hf := (caught_run hc hm).follows
  change Follows none (.ended (renderNodes (below (levelsAt s.place)) s nodes st).1) at hf
  rw [hr] at hf
  cases hf

/-! ## Where a signal goes -/

theorem split_home {stack : List Frame} (hh : home stack = some body) :
    ∃ inner l target position items outer,
      stack = inner ++ .visits l target body position items :: outer ∧
        ∀ f ∈ inner, f.passes = true := by
  induction stack with
  | nil => cases hh
  | cons f stack ih =>
    have hpass (hf : f.passes = true) (hh : home stack = some body) : ∃ inner l target position items
        outer, f :: stack = inner ++ .visits l target body position items :: outer ∧
          ∀ f ∈ inner, f.passes = true := by
      obtain ⟨inner, l, target, position, items, outer, rfl, hi⟩ := ih hh
      exact ⟨f :: inner, l, target, position, items, outer, rfl, List.forall_mem_cons.2 ⟨hf, hi⟩⟩
    cases f with
    | visits l target _ position items =>
      cases hh
      exact ⟨[], l, target, position, items, stack, rfl, List.forall_mem_nil _⟩
    | template place line | items l called t position items => cases hh
    | _ => exact hpass rfl hh

variable {c : Machine} {f : Frame} {inner outer : List Frame} {signal : Signal} {stop : Stop}

theorem within_program {tag : String} {p : Program} {pending : Option Signal}
    (hc : m.control = .program tag body p pending) :
    Within engine c m (m.program engine tag body p pending) := by
  refine ⟨?_, ?_⟩
  · rintro ⟨-, how, he⟩
    rw [hc] at he
    cases he
  · unfold step
    rw [hc]

/-- Once its body has given a signal, a tag of the host renders it no more, and ends with the signal
behind what it returns, unless it fails. -/
theorem ends_program (engine : Engine) {tag : String} {p : Program}
    (hc : m.control = .program tag body p (some signal)) :
    ∃ m' stop, Relation.ReflTransGen (Within engine c) m m' ∧ m'.stack = m.stack ∧
      m'.control = .ended (.error stop) ∧
        (stop = .signal signal ∧
            (∃ v, p.Returns v ∧ m'.state.output = m.state.output ++ v.toText) ∨
          ∃ e, stop = .error e) := by
  have hw : Within engine c m (m.program engine tag body p (some signal)) := within_program hc
  induction p generalizing m with
  | done v => exact ⟨_, _, .single hw, rfl, rfl, .inl ⟨rfl, v, .done v, rfl⟩⟩
  | fail e => exact ⟨_, _, .single hw, rfl, rfl, .inr ⟨_, rfl⟩⟩
  | body where_ next ih =>
    obtain ⟨m', stop, hw', hst, hc', h⟩ := ih "" (m := m.program engine tag body
      (.body where_ next) (some signal)) rfl (within_program rfl)
    exact ⟨m', stop, .head hw hw', hst, hc',
      h.imp_left fun h => h.imp_right fun ⟨v, hr, ho⟩ => ⟨v, .body hr, ho⟩⟩
  | look next ih =>
    obtain ⟨m', stop, hw', hst, hc', h⟩ := ih _ (m := m.program engine tag body (.look next)
      (some signal)) rfl (within_program rfl)
    exact ⟨m', stop, .head hw hw', hst, hc',
      h.imp_left fun h => h.imp_right fun ⟨v, hr, ho⟩ => ⟨v, .look _ hr, ho⟩⟩
  | assign name v next ih =>
    obtain ⟨m', stop, hw', hst, hc', h⟩ := ih (m := m.program engine tag body
      (.assign name v next) (some signal)) rfl (within_program rfl)
    exact ⟨m', stop, .head hw hw', hst, hc',
      h.imp_left fun h => h.imp_right fun ⟨w, hr, ho⟩ => ⟨w, .assign hr, ho⟩⟩

/-- What stands in no way of a stop is put away, and the stop goes on.  A tag of the host may fail
instead. -/
theorem goes_past (engine : Engine) (hf : f.passes = true) (hst : m.stack = f :: outer)
    (hl : c.stack.length < m.stack.length) (hc : m.control = .ended (.error stop)) :
    ∃ m' stop', Relation.ReflTransGen (Within engine c) m m' ∧ m'.stack = outer ∧
      m'.control = .ended (.error stop') ∧
        (stop' = stop ∧ f.Leaves m.state.output m'.state.output ∨
          f.isHost = true ∧ ∃ e, stop' = .error e) := by
  have hw : Within engine c m ({ m with stack := outer }.resume (.error stop) f) := by
    refine ⟨fun he => Nat.ne_of_gt hl (congrArg List.length he.1), ?_⟩
    unfold step
    rw [hc, hst]
  cases f with
  | visits | items | template => cases hf
  | behind nodes => exact ⟨_, _, .single hw, rfl, rfl, .inl ⟨rfl, .behind nodes _⟩⟩
  | block => exact ⟨_, _, .single hw, rfl, rfl, .inl ⟨rfl, .block _⟩⟩
  | isolation around locals positions =>
    exact ⟨_, _, .single hw, rfl, rfl, .inl ⟨rfl, .isolation around locals positions _⟩⟩
  | captured name aside =>
    exact ⟨_, _, .single hw, rfl, rfl, .inl ⟨rfl, .captured name aside _⟩⟩
  | host tag body next aside =>
    cases stop with
    | error e => exact ⟨_, _, .single hw, rfl, rfl, .inr ⟨rfl, _, rfl⟩⟩
    | signal signal =>
      obtain ⟨m', stop', hw', hst', hc', h⟩ := ends_program (c := c)
        (m := { m with stack := outer }.resume (.error (.signal signal)) (.host tag body next aside))
        engine rfl
      refine ⟨m', stop', .head hw hw', hst', hc', ?_⟩
      rcases h with ⟨rfl, v, hr, ho⟩ | he
      · rw [ho]
        exact .inl ⟨rfl, .host hr⟩
      · exact .inr ⟨rfl, he⟩

/-- A stop goes through all that stands in no way of it, unless a tag of the host fails there. -/
theorem goes_through (engine : Engine) (hp : ∀ f ∈ inner, f.passes = true)
    (hst : m.stack = inner ++ c.stack) (hc : m.control = .ended (.error stop)) :
    ∃ m' stop', Relation.ReflTransGen (Within engine c) m m' ∧ m'.stack = c.stack ∧
      m'.control = .ended (.error stop') ∧
        (stop' = stop ∧ LeavesAll inner m.state.output m'.state.output ∨
          (∃ f ∈ inner, f.isHost = true) ∧ ∃ e, stop' = .error e) := by
  induction inner generalizing m stop with
  | nil => exact ⟨m, stop, .refl, hst, hc, .inl ⟨rfl, .nil _⟩⟩
  | cons f inner ih =>
    obtain ⟨hf, hp⟩ := List.forall_mem_cons.1 hp
    have hl : c.stack.length < m.stack.length := by
      rw [hst, List.cons_append, List.length_cons, List.length_append]
      omega
    obtain ⟨m₁, stop₁, hw₁, hst₁, hc₁, h₁⟩ := goes_past engine hf hst hl hc
    obtain ⟨m₂, stop₂, hw₂, hst₂, hc₂, h₂⟩ := ih hp hst₁ hc₁
    refine ⟨m₂, stop₂, hw₁.trans hw₂, hst₂, hc₂, ?_⟩
    rcases h₂ with ⟨rfl, hall⟩ | ⟨⟨g, hg, hh⟩, he⟩
    · rcases h₁ with ⟨rfl, hleaves⟩ | ⟨hh, he⟩
      · exact .inl ⟨rfl, .cons hleaves hall⟩
      · exact .inr ⟨⟨f, .head _, hh⟩, he⟩
    · exact .inr ⟨⟨g, .tail f hg, hh⟩, he⟩

/-- What a signal does to the loop whose visits wait first: it leaves the loop, or it ends the visit
as if the body had come to its end. -/
def Obeys (engine : Engine) (outer : List Frame) (m : Machine) : Signal → Prop
  | .leave => m.step engine = some { m with stack := outer }.done
  | .next => m.step engine = m.done.step engine

theorem obeys {l : Loop} {target : String} {position : Int} {items : List Value}
    (hst : m.stack = .visits l target body position items :: outer)
    (hc : m.control = .ended (.error (.signal signal))) (engine : Engine) :
    m.Obeys engine outer signal := by
  obtain ⟨control, stack, around, place, state⟩ := m
  cases hst
  cases hc
  cases signal with
  | leave => rfl
  | next => cases items <;> rfl

/-- A signal that is rendered comes to the loop behind all that it passes, and takes the text with
it, unless a tag of the host fails there. -/
theorem signal_passes {pos : Position} {l : Loop} {target : String} {position : Int}
    {items : List Value} (hc : m.control = .node (.signal pos signal))
    (hst : m.stack = inner ++ .visits l target body position items :: outer)
    (hp : ∀ f ∈ inner, f.passes = true) (engine : Engine) :
    ∃ m' stop, Relation.ReflTransGen (Within engine m') m m' ∧
      m'.stack = .visits l target body position items :: outer ∧
      m'.control = .ended (.error stop) ∧
      (stop = .signal signal ∧ LeavesAll inner m.state.output m'.state.output ∧
          m'.Obeys engine outer signal ∨
        (∃ f ∈ inner, f.isHost = true) ∧ ∃ e, stop = .error e) := by
  have hstep : m.step engine = some (m.endWith (.error (.signal signal))) := by
    unfold step
    rw [hc]
    rfl
  obtain ⟨m', stop, hw, hst', hc', h⟩ := goes_through (m := m.endWith (.error (.signal signal)))
    (c := { m with stack := .visits l target body position items :: outer }) engine hp hst rfl
  -- Only the stack of the machine above which the run stays is looked at.
  have hwithin : Within engine { m with stack := .visits l target body position items :: outer } =
      Within engine m' := by
    funext a b
    simp only [Within, EndedOn, hst']
  rw [hwithin] at hw
  refine ⟨m', stop, .head ⟨?_, hstep⟩ hw, hst', hc', ?_⟩
  · rintro ⟨-, how, he⟩
    rw [hc] at he
    cases he
  · rcases h with ⟨rfl, hall⟩ | h
    · exact .inl ⟨rfl, hall, obeys hst' hc' engine⟩
    · exact .inr h

theorem signal_goes {pos : Position} {l : Loop} {target : String} {position : Int}
    {items : List Value} (hc : m.control = .node (.signal pos signal))
    (hst : m.stack = inner ++ .visits l target body position items :: outer)
    (hp : ∀ f ∈ inner, f.passes = true) (engine : Engine) :
    ∃ m' stop, Relation.ReflTransGen (Within engine m') m m' ∧
      m'.stack = .visits l target body position items :: outer ∧
      m'.control = .ended (.error stop) ∧
      (stop = .signal signal ∧ m'.Obeys engine outer signal ∨
        (∃ f ∈ inner, f.isHost = true) ∧ ∃ e, stop = .error e) := by
  obtain ⟨m', stop, hw, hst', hc', h⟩ := signal_passes hc hst hp engine
  exact ⟨m', stop, hw, hst', hc', h.imp_left fun h => ⟨h.1, h.2.2⟩⟩

/-- A signal that has a loop to go to ends no template, and a tag of the host goes on as behind the
normal end of its body. -/
theorem signal_ends (hc : m.control = .ended (.error (.signal signal)))
    (hh : (home m.stack).isSome = true) :
    ∃ f rest, m.stack = f :: rest ∧ f.isTemplate = false ∧
      ∀ tag body next output, f = .host tag body next output → ∀ engine,
        m.step engine = some
          { m with
            control := .program tag body (next m.state.output) (some signal)
            stack := rest
            state := { m.state with output } } := by
  cases hst : m.stack with
  | nil => rw [hst] at hh; cases hh
  | cons f rest =>
    rw [hst] at hh
    refine ⟨f, rest, rfl, ?_, ?_⟩
    · cases f with
      | template | items => cases hh
      | _ => rfl
    · rintro tag body next output rfl engine
      unfold step
      rw [hc, hst]
      rfl

/-- A signal that is rendered goes to the innermost loop that waits in the same template, which is
the one in whose body it stands, and in no loop body within it.  Everything between is put away, and
the loop is left or goes on with its next item, unless a tag of the host that stands between fails.
A signal never comes to the end of a template, be it the first one or one that another asks for, and
a tag of the host is told of it no more than of the normal end of its body. -/
theorem signals_caught {env : Environment} {t : Template} {data : Bindings} (ht : t.Parsed)
    (hs : env.shelf.Parsed) (hm : Relation.ReflTransGen Next (start env t data) m) :
    (∀ pos signal, m.control = .node (.signal pos signal) →
      ∃ inner l target body position items outer,
        m.stack = inner ++ .visits l target body position items :: outer ∧
        (∀ f ∈ inner, f.passes = true) ∧ In body (.signal pos signal) ∧
        ∀ engine, ∃ m' stop, Relation.ReflTransGen (Within engine m') m m' ∧
          m'.stack = .visits l target body position items :: outer ∧
          m'.control = .ended (.error stop) ∧
          (stop = .signal signal ∧ m'.Obeys engine outer signal ∨
            (∃ f ∈ inner, f.isHost = true) ∧ ∃ e, stop = .error e)) ∧
    ∀ signal, m.control = .ended (.error (.signal signal)) →
      ∃ f rest, m.stack = f :: rest ∧ f.isTemplate = false ∧
        ∀ tag body next output, f = .host tag body next output → ∀ engine,
          m.step engine = some
            { m with
              control := .program tag body (next m.state.output) (some signal)
              stack := rest
              state := { m.state with output } } := by
  have hc := caught_run (caught_start ht hs data) hm
  refine ⟨fun pos signal hn => ?_, fun signal he => ?_⟩
  · have hb := hc.follows
    rw [hn] at hb
    obtain ⟨body, hh, hin⟩ := hb.signal
    obtain ⟨inner, l, target, position, items, outer, hst, hp⟩ := split_home hh
    exact ⟨inner, l, target, body, position, items, outer, hst, hp, hin, signal_goes hn hst hp⟩
  · have hf := hc.follows
    rw [he] at hf
    exact signal_ends he hf

section

open Spelling

/-- The words of a loop over one item. -/
def loopWords : List Spelling :=
  [ofName 'f' ['o', 'r'] rfl, ofName 'n' [] rfl, ofName 'i' ['n'] rfl, ofString ['y'] rfl]

/-- The word that leaves a loop. -/
def leavingWord : Spelling := ofName 'b' ['r', 'e', 'a', 'k'] rfl

/-- The word that ends a loop. -/
def endingWord : Spelling := ofName 'e' ['n', 'd', 'f', 'o', 'r'] rfl

/-- The source `{% for n in "y" %}{% break %}{% endfor %}`. -/
def leavingSource : List Char :=
  written .tag loopWords ++ (written .tag [leavingWord] ++ written .tag [endingWord])

/-- A loop that is left at once. -/
def leaving : Template where
  source := String.ofList leavingSource
  name := none
  filename := none
  nodes :=
    [.loop ⟨3, 1, 3⟩ ⟨"n", .const ⟨12, 1, 12⟩ (.text "y"), none, none, false⟩
      [.signal ⟨21, 1, 21⟩ .leave] []]

/-- An environment with nothing in it. -/
def bare : Environment := ⟨⟨none, {}, {}⟩, [], false, 0, ⟨{ maxSize := 0, label := "" }, 0⟩⟩

theorem parsed_leaving : leaving.Parsed := by
  have hend := Lexer.lexemes_written (flows_singleton (w := endingWord) (by decide))
    (fun _ : Region.tag = Region.tag => ⟨endingWord, [], rfl, by decide, by decide⟩)
    (Lexer.lexemes_nil false) false
  rw [List.append_nil] at hend
  have hbreak := Lexer.lexemes_written (flows_singleton (w := leavingWord) (by decide))
    (fun _ : Region.tag = Region.tag => ⟨leavingWord, [], rfl, by decide, by decide⟩) hend false
  have hflows : Flows false loopWords false :=
    flows_cons (by decide) (flows_cons (by decide) (flows_cons (by decide)
      (flows_singleton (by decide))))
  have hl := Lexer.lexemes_written hflows
    (fun _ : Region.tag = Region.tag => ⟨_, _, rfl, by decide, by decide⟩) hbreak false
  refine ⟨[], String.ofList leavingSource, ?_⟩
  unfold parse
  rw [leavingSource, tokenize_of_lexemes hl]
  cbv

/-- A signal on its way to the loop. -/
theorem signals_caught_leaving :
    leaving.Parsed ∧ bare.shelf.Parsed ∧
      ∃ m, Relation.ReflTransGen Next (start bare leaving []) m ∧
        m.control = .node (.signal ⟨21, 1, 21⟩ .leave) ∧
        ∃ inner l target body position items outer,
          m.stack = inner ++ .visits l target body position items :: outer ∧
          (∀ f ∈ inner, f.passes = true) ∧ In body (.signal ⟨21, 1, 21⟩ .leave) := by
  have hs : bare.shelf.Parsed := fun _ _ h => nomatch h
  have hm : ∃ m, Relation.ReflTransGen Next (start bare leaving []) m ∧
      m.control = .node (.signal ⟨21, 1, 21⟩ .leave) :=
    ⟨_, .head ⟨bare.engine, rfl⟩ (.head ⟨bare.engine, rfl⟩ (.head ⟨bare.engine, rfl⟩
      (.head ⟨bare.engine, rfl⟩ .refl))), rfl⟩
  obtain ⟨m, hm, hc⟩ := hm
  obtain ⟨inner, l, target, body, position, items, outer, hst, hp, hin, -⟩ :=
    (signals_caught parsed_leaving hs hm).1 _ _ hc
  exact ⟨parsed_leaving, hs, m, hm, hc, inner, l, target, body, position, items, outer, hst, hp, hin⟩

end

end Machine

end Liquid
