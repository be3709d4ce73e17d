import Liquid.Proofs.Rendering.Chain
import Liquid.Proofs.Rendering.Depth
import Liquid.Proofs.Rendering.Signals
import Liquid.Proofs.Rendering.Visits
import Mathlib

/-!
# Loops inside loops

A loop binds itself under one name, and so does the loop through the items of a tag that includes a
template.  The parent of a loop is looked up under that name where the loop begins, and it is the
loop that goes on there, not a copy of it as it was.

**Chains.** The loops of a scope chain are those that wait above the latest isolation.  Each stands
in a block of its own that binds the name to it, and no other block or layer binds it: `Chain` says
so of a stack with its frames, and that each loop stands at the item of its latest visit.  A loop
that begins has a number above those of all loops around it, so that what it does to its own position
leaves theirs alone.

* `threaded_step`: the chain is kept by every step that leaves the name to the loops.
* `Chain.findSome?`, `Chain.parent`, `Chain.position`: what a chain tells of the innermost loop, of
  the one around it, and of where they stand.
* `parent_of_loop`: the parent of a loop is the loop around it, except for the loop of a tag.
* `not_always_parent`: the loop of a tag knows of no loop around it.
-/
namespace Liquid

/-! ## Loops as they stand -/

namespace Loop

variable {positions : Positions} {l : Loop}

/-- The loop and all around it are loops of the rendering. -/
inductive Live (positions : Positions) : Loop → Prop where
  | outermost {id length position} :
    (positions.position? id).isSome → Live positions ⟨id, length, position, none⟩
  | inner {id length position parent} :
    (positions.position? id).isSome → Live positions parent →
    Live positions ⟨id, length, position, some parent⟩

theorem Live.now (h : l.Live positions) (before : Positions) : (l.now before).Live positions := by
  induction h with
  | outermost h => exact .outermost h
  | inner h _ ih => exact .inner h ih

/-- Where a loop stood before does not matter to where it stands. -/
theorem Live.now_now (h : l.Live positions) (before : Positions) :
    (l.now before).now positions = l.now positions := by
  have stands {id : Nat} (h : (positions.position? id).isSome) (x y : Int) :
      (positions.position? id).getD x = (positions.position? id).getD y := by
    obtain ⟨position, hp⟩ := Option.isSome_iff_exists.1 h
    rw [hp]
    rfl
  induction h with
  | outermost h =>
    simp only [Loop.now]
    rw [stands h]
  | inner h _ ih =>
    simp only [Loop.now, ih]
    rw [stands h]

theorem parent_now (l : Loop) (positions : Positions) :
    (l.now positions).parent = l.parent.map (Loop.now positions) := by
  obtain ⟨id, length, position, _ | parent⟩ := l <;> rfl

end Loop

/-! ## Loops that wait -/

namespace Frame

/-- The loop that waits here for the end of one of its visits. -/
def loop? : Frame → Option Loop
  | .visits l _ _ _ _ | .items l _ _ _ _ => some l
  | _ => none

/-- How many of the visits of the loop that waits here have begun. -/
def begun : Frame → Int
  | .visits _ _ _ position _ | .items _ _ _ position _ => position
  | _ => 0

/-- Whether the loop that waits here is a tag of its own, and not one through the items of a tag. -/
def isVisits : Frame → Bool
  | .visits _ _ _ _ _ => true
  | _ => false

/-- Whether names are put aside here. -/
def isIsolation : Frame → Bool
  | .isolation _ _ _ => true
  | _ => false

end Frame

/-- The loops of the present scope chain that wait for the end of a visit, the innermost first. -/
def loopsAround (stack : List Frame) : List Frame :=
  (stack.takeWhile fun f => !f.isIsolation).filter fun f => f.loop?.isSome

/-- The innermost loop of the present scope chain. -/
def innermost (stack : List Frame) : Option Loop := (loopsAround stack).head?.bind Frame.loop?

/-- What the name for loops means inside such loops. -/
def forloopAt (positions : Positions) (loops : List Frame) : Value :=
  ((loops.head?.bind Frame.loop?).map fun l => Value.loop (l.now positions)).getD .nil

/-! ## What binds the name for loops -/

namespace Surroundings

/-- Surroundings in which the name for loops is bound in frames only, if at all. -/
structure Clear (s : Surroundings) (locals : Bindings) : Prop where
  locals : locals.get? "forloop" = none
  data : s.data.get? "forloop" = none
  globals : s.globals.get? "forloop" = none

end Surroundings

namespace Node

/-- The template that is asked for. -/
def inclusion? : Node → Option Inclusion
  | .include _ what _ | .render _ what => some what
  | _ => none

/-- Whether the template that is asked for is given a value. -/
def gives : Node → Bool
  | .include _ what each => what.given.isSome || each.isSome
  | .render _ what => what.given.isSome
  | _ => false

end Node

namespace Machine

/-- What is done next binds the name for loops, and not as a loop does. -/
inductive Rebinds (engine : Engine) (m : Machine) : Prop where
  | assign {pos e filters} :
    m.control = .node (.assign pos "forloop" e filters) → Rebinds engine m
  | capture {pos body} : m.control = .node (.capture pos "forloop" body) → Rebinds engine m
  | target {pos head body otherwise} :
    m.control = .node (.loop pos head body otherwise) → head.target = "forloop" →
    Rebinds engine m
  | written {n what} :
    m.control = .node n → n.inclusion? = some what →
    "forloop" ∈ what.bindings.map Prod.fst → Rebinds engine m
  | given {n what tag t st} :
    m.control = .node n → n.inclusion? = some what → n.gives = true →
    Run.find (m.setting engine) tag what.template m.state = (.ok t, st) →
    Run.aliasIn what t = "forloop" → Rebinds engine m
  | hostAssign {tag body v next pending} :
    m.control = .program tag body (.assign "forloop" v next) pending → Rebinds engine m
  | hostFrame {tag body frame next} :
    m.control = .program tag body (.body (.inside frame) next) none →
    Bindings.get? "forloop" frame ≠ none → Rebinds engine m
  | hostData {tag body data next} :
    m.control = .program tag body (.body (.isolated data) next) none →
    Bindings.get? "forloop" data ≠ none → Rebinds engine m

/-! ## The invariant -/

/-- What is known of a loop that waits, inside another or inside none: its number, the name of its
items, and its parent.  A loop through the items of a tag has none. -/
inductive Links (enclosing : Option Loop) : Frame → Loop → String → Prop where
  | visits {l target body position items} (before : Positions) :
    l.parent = enclosing.map (Loop.now before) →
    Links enclosing (.visits l target body position items) l target
  | items {l called t position items} :
    l.parent = none → Links enclosing (.items l called t position items) l called

/-- A stack with the frames of its scope chain and the loops with numbers below a bound.  Each loop
binds itself in the block in which it stands, and nothing else binds the name for loops. -/
inductive Chain : Nat → Positions → List Frame → List Bindings → Prop where
  | nil {n positions} : Chain n positions [] []
  | behind {n positions stack frames nodes} :
    Chain n positions stack frames → Chain n positions (.behind nodes :: stack) frames
  | block {n positions stack frames frame} :
    Bindings.get? "forloop" frame = none → Chain n positions stack frames →
    Chain n positions (.block :: stack) (frame :: frames)
  | isolation {n k positions stack around locals outer} :
    around.Clear locals → k ≤ outer.size → Chain k outer stack around.frames →
    Chain n positions (.isolation around locals outer :: stack) []
  | template {n positions stack frames place line} :
    Chain n positions stack frames → Chain n positions (.template place line :: stack) frames
  | captured {n positions stack frames name output} :
    name ≠ "forloop" → Chain n positions stack frames →
    Chain n positions (.captured name output :: stack) frames
  | host {n positions stack frames tag body next output} :
    Chain n positions stack frames →
    Chain n positions (.host tag body next output :: stack) frames
  | loop {n k positions stack frames frame f l name} :
    Links (innermost stack) f l name → name ≠ "forloop" →
    Bindings.get? "forloop" frame = some (.loop l) → k ≤ l.id → l.id < n → 0 ≤ f.begun →
    positions.position? l.id = some (max 0 (f.begun - 1)) →
    Chain k positions stack frames →
    Chain n positions (f :: .block :: stack) (frame :: frames)

variable {n k : Nat} {positions positions' : Positions} {stack : List Frame}
  {frames : List Bindings}

/-- It does not matter which other loops begin or move. -/
theorem Chain.of_take (h : Chain n positions stack frames) (hk : n ≤ k)
    (ht : ∀ id < n, positions'.position? id = positions.position? id) :
    Chain k positions' stack frames := by
  induction h generalizing k with
  | nil => exact .nil
  | behind _ ih => exact .behind (ih hk ht)
  | block hf _ ih => exact .block hf (ih hk ht)
  | isolation hc ho h _ => exact .isolation hc ho h
  | template _ ih => exact .template (ih hk ht)
  | captured hn _ ih => exact .captured hn (ih hk ht)
  | host _ ih => exact .host (ih hk ht)
  | loop hl hn hf hkl hln h0 hp _ ih =>
    exact .loop hl hn hf hkl (Nat.lt_of_lt_of_le hln hk) h0 ((ht _ hln).trans hp)
      (ih (Nat.le_refl _) fun id hid => ht id (by omega))

/-- The name for loops means the innermost loop of the scope chain, and nothing without one. -/
theorem Chain.findSome? (h : Chain n positions stack frames) :
    frames.findSome? (Bindings.get? "forloop") = (innermost stack).map Value.loop := by
  induction h with
  | nil => rfl
  | behind _ ih | template _ ih | captured _ _ ih | host _ ih => exact ih
  | isolation => rfl
  | block hf _ ih => rw [List.findSome?_cons, hf]; exact ih
  | loop hl hn hf =>
    rw [List.findSome?_cons, hf]
    cases hl <;> rfl

/-- The loops of a scope chain are loops of the rendering. -/
theorem Chain.live (h : Chain n positions stack frames) {l : Loop} (hl : innermost stack = some l) :
    l.Live positions := by
  induction h generalizing l with
  | nil => cases hl
  | behind _ ih | template _ ih | captured _ _ ih | host _ ih => exact ih hl
  | isolation => cases hl
  | block hf _ ih => exact ih hl
  | @loop _ _ positions stack _ _ f l' _ hlinks hn hf hkl hln h0 hp _ ih =>
    have hs : (positions.position? l'.id).isSome := by rw [hp]; rfl
    -- The parent is what was innermost below, as it stood when this loop began.
    obtain ⟨id, length, position, parent⟩ := l'
    cases hlinks with
    | visits before hparent =>
      cases hl
      cases hi : innermost stack with
      | none =>
        rw [hi] at hparent
        cases hparent
        exact .outermost hs
      | some e =>
        rw [hi] at hparent
        cases hparent
        exact .inner hs ((ih hi).now before)
    | items hparent =>
      cases hl
      cases hparent
      exact .outermost hs

/-- The parent of the innermost loop is the next one of the scope chain, as it stands. -/
theorem Chain.parent (h : Chain n positions stack frames) {f : Frame} {outer : List Frame}
    (hf : loopsAround stack = f :: outer) :
    ∃ l, f.loop? = some l ∧ l.parent.map (Loop.now positions) =
      if f.isVisits then (outer.head?.bind Frame.loop?).map (Loop.now positions) else none := by
  induction h with
  | nil => cases hf
  | behind _ ih | template _ ih | captured _ _ ih | host _ ih => exact ih hf
  | isolation => cases hf
  | block _ _ ih => exact ih hf
  | @loop _ _ positions stack _ _ _ _ _ hl _ _ _ _ _ _ hc =>
    cases hl with
    | visits before hparent =>
      cases hf
      refine ⟨_, rfl, ?_⟩
      rw [hparent, Option.map_map]
      change _ = (innermost stack).map (Loop.now positions)
      cases hi : innermost stack with
      | none => rfl
      | some e => exact congrArg some ((hc.live hi).now_now before)
    | items hparent =>
      cases hf
      refine ⟨_, rfl, ?_⟩
      rw [hparent]
      rfl

/-- Each loop of a scope chain stands at the item of its latest visit. -/
theorem Chain.position (h : Chain n positions stack frames) {f : Frame}
    (hf : f ∈ loopsAround stack) :
    ∃ l, f.loop? = some l ∧ positions.position? l.id = some (max 0 (f.begun - 1)) := by
  induction h with
  | nil => cases hf
  | behind _ ih | template _ ih | captured _ _ ih | host _ ih => exact ih hf
  | isolation => cases hf
  | block _ _ ih => exact ih hf
  | @loop _ _ positions stack _ _ g l' _ hlinks hn _ hkl hln h0 hp _ ih =>
    have hg : f = g ∨ f ∈ loopsAround stack := by
      cases hlinks <;> exact List.mem_cons.1 hf
    rcases hg with rfl | hg
    · refine ⟨l', ?_, hp⟩
      cases hlinks <;> rfl
    · exact ih hg

/-- The loops of a scope chain are threaded. -/
structure Threads (stack : List Frame) (around : Surroundings) (locals : Bindings)
    (positions : Positions) : Prop where
  clear : around.Clear locals
  chain : ∃ n, n ≤ positions.size ∧ Chain n positions stack around.frames

/-- The invariant of a rendering.  Behind the last visit of a loop, its block is still there for the
time of one step. -/
def Threaded (m : Machine) : Prop :=
  Threads m.stack m.around m.state.locals m.state.positions ∨
    (∃ how, m.control = .ended how) ∧ ∃ stack, m.stack = .block :: stack ∧
      Threads stack m.around.pop m.state.locals m.state.positions

end Machine

namespace Run

variable {α β : Type}

/-- A run that neither moves a loop nor binds the name for loops. -/
def Spares (run : Run α) : Prop :=
  ∀ st, (run st).2.positions = st.positions ∧
    Bindings.get? "forloop" (run st).2.locals = Bindings.get? "forloop" st.locals

theorem Looks.spares {run : Run α} (h : Looks run) : Spares run := by
  intro st
  rw [h.state]
  exact ⟨rfl, rfl⟩

theorem spares_bind {run : Run α} {f : α → Run β} (h : Spares run) (hf : ∀ x, Spares (f x)) :
    Spares (run >>= f) := by
  intro st
  rw [bind_apply]
  have hr := h st
  rcases hst : run st with ⟨stop | x, st'⟩ <;> rw [hst] at hr
  · exact hr
  · exact ⟨(hf x st').1.trans hr.1, (hf x st').2.trans hr.2⟩

theorem spares_write (text : String) : Spares (write text) := fun _ => ⟨rfl, rfl⟩

theorem spares_assign {name : String} (h : name ≠ "forloop") (v : Value) :
    Spares (assign name v) :=
  fun st => ⟨rfl, Bindings.get?_set_of_ne h.symm v st.locals⟩

theorem spares_find (s : Setting) (tag : String) (e : Expr) : Spares (find s tag e) := by
  refine spares_bind (looks_eval s e).spares fun _ =>
    spares_bind (looks_checkDepth s _).spares fun _ st => ?_
  rw [fetch_apply]
  exact ⟨rfl, rfl⟩

/-! ### What is bound where a template is asked for -/

theorem get?_evalNamed {view : View} {strict : Bool} {name : String}
    {es : List (String × Expr)} {b b' : Bindings} (h : Expr.evalNamed view strict es b = .ok b')
    (hn : name ∉ es.map Prod.fst) : b'.get? name = b.get? name := by
  induction es generalizing b with
  | nil => cases h; rfl
  | cons e rest ih =>
    rw [List.map_cons, List.mem_cons, not_or] at hn
    rw [Expr.evalNamed] at h
    cases he : e.2.eval view strict with
    | error f => rw [he] at h; cases h
    | ok v =>
      rw [he] at h
      exact (ih h hn.2).trans (Bindings.get?_set_of_ne hn.1 v b)

theorem get?_evalBindings {s : Setting} {bindings : List (String × Expr)} {b : Bindings}
    {st st' : State} (h : evalBindings s bindings st = (.ok b, st'))
    (hn : "forloop" ∉ bindings.map Prod.fst) : b.get? "forloop" = none := by
  change ofExcept (Expr.evalNamed (s.view st) s.around.strict bindings []) st = _ at h
  rw [ofExcept_apply] at h
  cases he : Expr.evalNamed (s.view st) s.around.strict bindings [] with
  | error f => rw [he] at h; cases h
  | ok b' =>
    rw [he] at h
    cases h
    exact get?_evalNamed he hn

theorem get?_evalGiven {s : Setting} {what : Inclusion} {t : Loaded} {b : Bindings} {st st' : State}
    (h : evalGiven s what t st = (.ok b, st')) (hn : "forloop" ∉ what.bindings.map Prod.fst)
    (ha : what.given.isSome → aliasIn what t ≠ "forloop") : b.get? "forloop" = none := by
  rw [evalGiven, bind_apply] at h
  rcases hb : evalBindings s what.bindings st with ⟨stop | bindings, st₁⟩ <;> rw [hb] at h
  · cases h
  have hbound := get?_evalBindings hb hn
  cases hg : what.given with
  | none =>
    rw [hg] at h
    cases h
    exact hbound
  | some e =>
    rw [hg] at h ha
    change (eval s e >>= fun v => pure (bindings.set (aliasIn what t) v)) st₁ = _ at h
    rw [bind_apply] at h
    rcases hv : eval s e st₁ with ⟨stop | v, st₂⟩ <;> rw [hv] at h
    · cases h
    · cases h
      exact (Bindings.get?_set_of_ne (ha rfl).symm v bindings).trans hbound

/-- A loop through the items of a tag begins, or nothing has happened. -/
theorem beginItems_cases (s : Setting) (what : Inclusion) (e : Expr) (st : State) :
    (∃ stop, beginItems s what e st = (.error stop, st)) ∨
      ∃ bindings, ∃ items : List Value,
        beginItems s what e st =
          (.ok (Bindings.set "forloop" (.loop ⟨st.positions.size, items.length, 0, none⟩) bindings,
              items, ⟨st.positions.size, items.length, 0, none⟩),
            { st with positions := st.positions.push (some 0) }) := by
  rw [beginItems, bind_apply]
  obtain ⟨r, hr⟩ := (looks_evalBindings s what.bindings).apply st
  rw [hr]
  cases r with
  | error f => exact .inl ⟨_, rfl⟩
  | ok bindings =>
    obtain ⟨r', hr'⟩ := (looks_evalItems s e).apply st
    dsimp only [Except.mapError]
    rw [bind_apply, hr']
    cases r' with
    | error f => exact .inl ⟨_, rfl⟩
    | ok items => exact .inr ⟨bindings, items, rfl⟩

end Run

namespace Machine

variable {m m' : Machine} {stack : List Frame} {around : Surroundings} {locals : Bindings}
  {positions : Positions}

theorem Threads.of_locals (h : Threads stack around locals positions) {locals' : Bindings}
    (hl : locals'.get? "forloop" = locals.get? "forloop") :
    Threads stack around locals' positions :=
  ⟨⟨hl.trans h.clear.locals, h.clear.data, h.clear.globals⟩, h.chain⟩

theorem threaded_perform {α : Type} {run : Run α} {next : Machine → α → Machine} (hr : run.Spares)
    (h : Threads m.stack m.around m.state.locals m.state.positions)
    (hn : ∀ x st, run m.state = (.ok x, st) → st.positions = m.state.positions →
      Threads m.stack m.around st.locals st.positions →
      (next { m with state := st } x).Threaded) :
    (m.perform run next).Threaded := by
  have hs := hr m.state
  unfold perform
  rcases hst : run m.state with ⟨stop | x, st⟩ <;> rw [hst] at hs
  · exact .inl (hs.1 ▸ h.of_locals hs.2)
  · exact hn x st hst hs.1 (hs.1 ▸ h.of_locals hs.2)

theorem threaded_done {run : Run Unit} (hr : run.Spares)
    (h : Threads m.stack m.around m.state.locals m.state.positions) :
    (m.perform run fun m () => m.done).Threaded :=
  threaded_perform hr h fun _ _ _ _ h => .inl h

/-- A loop that has begun stands in a block of its own. -/
theorem Threads.begin (h : Threads stack around locals positions) {f : Frame} {l : Loop}
    {name : String} {frame : Bindings} (hl : Links (innermost stack) f l name)
    (hn : name ≠ "forloop") (hf : Bindings.get? "forloop" frame = some (.loop l))
    (hid : l.id = positions.size) (h0 : f.begun = 0) :
    Threads (f :: .block :: stack) (around.push frame) locals (positions.push (some 0)) := by
  obtain ⟨n, hn', hc⟩ := h.chain
  refine ⟨⟨h.clear.locals, h.clear.data, h.clear.globals⟩, positions.size + 1, ?_, ?_⟩
  · rw [Array.size_push]
  · have hp : Positions.position? (positions.push (some 0)) l.id = some 0 := by
      rw [Positions.position?, hid, Array.getElem?_push_size]
      rfl
    refine .loop hl hn hf (hid ▸ hn') (by omega) (by omega) (by rw [hp, h0]; rfl) ?_
    -- The loops below have smaller numbers, so the new position is none of theirs.
    refine hc.of_take (Nat.le_refl _) fun id hlt => ?_
    have hid : id < positions.size := Nat.lt_of_lt_of_le hlt hn'
    rw [Positions.position?, Positions.position?, Array.getElem?_push_lt hid,
      Array.getElem?_eq_getElem hid]

/-- A frame in which the name for loops is not bound may be opened anywhere. -/
theorem Threads.openBlock (h : Threads stack around locals positions) {frame : Bindings}
    (hf : Bindings.get? "forloop" frame = none) :
    Threads (.block :: stack) (around.push frame) locals positions := by
  obtain ⟨n, hn, hc⟩ := h.chain
  exact ⟨⟨h.clear.locals, h.clear.data, h.clear.globals⟩, n, hn, .block hf hc⟩

/-- An isolation puts the chain aside and begins another. -/
theorem Threads.isolate (h : Threads stack around locals positions) {data : Bindings}
    (hd : Bindings.get? "forloop" data = none) (outside : Positions) :
    Threads (.isolation around locals positions :: stack) (around.isolated data) [] outside := by
  obtain ⟨n, hn, hc⟩ := h.chain
  exact ⟨⟨rfl, hd, h.clear.globals⟩, 0, Nat.zero_le _, .isolation h.clear hn hc⟩

/-- The loop that the name for it means is the innermost of the scope chain. -/
theorem Threads.lookup (h : Threads stack around locals positions) :
    Scope.lookup? { toSurroundings := around, locals } "forloop" =
      (innermost stack).map Value.loop := by
  obtain ⟨n, -, hc⟩ := h.chain
  have hrest :
      [locals, around.data, around.globals].findSome? (Bindings.get? "forloop") = none := by
    simp only [List.findSome?_cons, h.clear.locals, h.clear.data, h.clear.globals,
      List.findSome?_nil]
  rw [Scope.lookup?, Scope.layers, List.findSome?_append, hc.findSome?, hrest, Option.or_none]

theorem Threads.enclosingLoop (h : Threads stack around locals positions) (place : Option Place)
    (line : Int) :
    Run.enclosingLoop ⟨{ toSurroundings := around, locals }, positions, place, line⟩ =
      (innermost stack).map (Loop.now positions) := by
  rw [Run.enclosingLoop, View.lookup, Scope.lookup, h.lookup]
  cases innermost stack <;> rfl

theorem threaded_loop {engine : Engine} {pos : Position} {head : LoopHead}
    {body otherwise : List Node}
    (hc : m.control = .node (.loop pos head body otherwise))
    (h : Threads m.stack m.around m.state.locals m.state.positions) (hr : ¬ m.Rebinds engine) :
    (m.node engine (.loop pos head body otherwise)).Threaded := by
  have htarget : head.target ≠ "forloop" := fun ht => hr (.target hc ht)
  simp only [node]
  refine threaded_perform (Run.looks_loopItems _ head).spares h fun items st _ _ h => ?_
  cases items with
  | nil => exact .inl h
  | cons v rest =>
    let l : Loop := ⟨st.positions.size, (v :: rest).length, 0,
      Run.enclosingLoop ((m.setting engine).view st)⟩
    have hl : Links (innermost m.stack) (.visits l head.target body 0 (v :: rest)) l head.target :=
      .visits st.positions (h.enclosingLoop _ _)
    exact .inl (h.begin hl htarget rfl rfl rfl)

theorem threaded_include {engine : Engine} {pos : Position} {what : Inclusion} {each : Option Expr}
    (hc : m.control = .node (.include pos what each))
    (h : Threads m.stack m.around m.state.locals m.state.positions) (hr : ¬ m.Rebinds engine) :
    (m.node engine (.include pos what each)).Threaded := by
  have hb : "forloop" ∉ what.bindings.map Prod.fst := fun hb => hr (.written hc rfl hb)
  simp only [node]
  refine threaded_perform (Run.spares_find _ "include" _) h fun t st hfind _ h => ?_
  cases each with
  | none =>
    refine threaded_perform (Run.looks_evalGiven _ what t).spares h fun b st' hgiven _ h => ?_
    refine .inl (h.openBlock (Run.get?_evalGiven hgiven hb fun hg ha => ?_))
    exact hr (.given hc rfl (by rw [Node.gives, hg]; rfl) hfind ha)
  | some e =>
    have ha : Run.aliasIn what t ≠ "forloop" :=
      fun ha => hr (.given hc rfl (Bool.or_true _) hfind ha)
    dsimp only
    rcases Run.beginItems_cases (m.setting engine) what e st with ⟨stop, hs⟩ | ⟨bindings, items, hs⟩
    · rw [perform_of_error (m := { m with state := st }) hs]
      exact .inl h
    · rw [perform_of_ok (m := { m with state := st }) hs]
      let l : Loop := ⟨st.positions.size, items.length, 0, none⟩
      have hl : Links (innermost m.stack) (.items l (Run.aliasIn what t) t 0 items) l
          (Run.aliasIn what t) := .items rfl
      exact .inl (h.begin hl ha (Bindings.get?_set_self _ _ _) rfl rfl)

theorem threaded_alone {engine : Engine} {pos : Position} {what : Inclusion}
    (hc : m.control = .node (.render pos what))
    (h : Threads m.stack m.around m.state.locals m.state.positions) (hr : ¬ m.Rebinds engine) :
    (m.node engine (.render pos what)).Threaded := by
  have hb : "forloop" ∉ what.bindings.map Prod.fst := fun hb => hr (.written hc rfl hb)
  simp only [node]
  refine threaded_perform (Run.spares_find _ "render" _) h fun t st hfind _ h => ?_
  refine threaded_perform (Run.looks_evalGiven _ what t).spares h fun b st' hgiven _ h => ?_
  refine .inl (h.isolate (Run.get?_evalGiven hgiven hb fun hg ha => ?_) _)
  exact hr (.given hc rfl hg hfind ha)

theorem threaded_node {engine : Engine} {x : Node} (hc : m.control = .node x)
    (h : Threads m.stack m.around m.state.locals m.state.positions) (hr : ¬ m.Rebinds engine) :
    (m.node engine x).Threaded := by
  let s := m.setting engine
  cases x with
  | text pos text | raw pos text => exact threaded_done (Run.spares_write text) h
  | comment pos text | signal pos signal => exact .inl h
  | output pos e filters left right =>
    cases e with
    | none => exact .inl h
    | some e =>
      exact threaded_done (Run.spares_bind (Run.looks_evalFiltered s e filters).spares fun _ =>
        Run.spares_write _) h
  | assign pos name e filters =>
    have hn : name ≠ "forloop" := by
      rintro rfl
      exact hr (.assign hc)
    exact threaded_done (Run.spares_bind (Run.looks_evalFiltered s e filters).spares fun _ =>
      Run.spares_assign hn _) h
  | capture pos name body =>
    have hn : name ≠ "forloop" := by
      rintro rfl
      exact hr (.capture hc)
    obtain ⟨n, hs, hch⟩ := h.chain
    exact .inl ⟨h.clear, n, hs, .captured hn hch⟩
  | conditional pos negated test body branches otherwise =>
    exact threaded_perform (Run.looks_chooseBody s negated test body branches otherwise).spares h
      fun _ _ _ _ h => .inl h
  | choice pos subject whens otherwise =>
    exact threaded_perform (Run.spares_bind (Run.looks_eval s subject).spares fun v =>
      (Run.looks_chooseWhen s v otherwise whens).spares) h fun _ _ _ _ h => .inl h
  | loop pos head body otherwise => exact threaded_loop hc h hr
  | «include» pos what each => exact threaded_include hc h hr
  | render pos what => exact threaded_alone hc h hr
  | tag pos name arguments body markup =>
    simp only [node]
    cases engine.tags.get? name with
    | none => exact threaded_done (Run.looks_unknownTag s name).spares h
    | some tag =>
      exact threaded_perform (Run.looks_evalArguments s arguments).spares h fun _ _ _ _ h => .inl h

theorem threaded_program {engine : Engine} {tag : String} {body : List Node} {p : Program}
    {pending : Option Signal} (hc : m.control = .program tag body p pending)
    (h : Threads m.stack m.around m.state.locals m.state.positions) (hr : ¬ m.Rebinds engine) :
    (m.program engine tag body p pending).Threaded := by
  cases p with
  | done v => cases pending <;> exact .inl h
  | fail e | look next => exact .inl h
  | assign name v next =>
    have hn : name ≠ "forloop" := by
      rintro rfl
      exact hr (.hostAssign hc)
    exact threaded_perform (Run.spares_assign hn v) h fun _ _ _ _ h => .inl h
  | body where_ next =>
    cases pending with
    | some signal => exact .inl h
    | none =>
      obtain ⟨n, hn, hch⟩ := h.chain
      have hhost : Threads (.host tag body next m.state.output :: m.stack) m.around m.state.locals
          m.state.positions := ⟨h.clear, n, hn, .host hch⟩
      cases where_ with
      | here => exact .inl hhost
      | inside frame =>
        exact .inl (hhost.openBlock (Classical.byContradiction fun hf => hr (.hostFrame hc hf)))
      | isolated data =>
        exact .inl (hhost.isolate (Classical.byContradiction fun hd => hr (.hostData hc hd)) _)

/-- A loop that goes on to its next visit stands at the item of that visit. -/
theorem Chain.moved {n k : Nat} {f : Frame} {l : Loop} {name : String} {frame : Bindings}
    {frames : List Bindings} {position : Int} (hl : Links (innermost stack) f l name)
    (hn : name ≠ "forloop") (hf : Bindings.get? "forloop" frame = some (.loop l)) (hk : k ≤ l.id)
    (hln : l.id < n) (hs : n ≤ positions.size) (h0 : 0 ≤ position)
    (hb : f.begun = position + 1) (hc : Chain k positions stack frames) :
    Chain n (positions.setIfInBounds l.id (some position)) (f :: .block :: stack)
      (frame :: frames) := by
  have hstands : max 0 (f.begun - 1) = position := by omega
  refine .loop hl hn hf hk hln (by omega) ?_ (hc.of_take (Nat.le_refl _) fun id hid => ?_)
  · rw [Positions.position?, Array.getElem?_setIfInBounds_self_of_lt (by omega), hstands]
    rfl
  · rw [Positions.position?, Positions.position?, Array.getElem?_setIfInBounds_ne (by omega)]

theorem frames_bind {s : Surroundings} {frame : Bindings} {frames : List Bindings}
    (h : s.frames = frame :: frames) (name : String) (v : Value) :
    (s.bind name v).frames = frame.set name v :: frames ∧
      (s.bind name v).data = s.data ∧ (s.bind name v).globals = s.globals := by
  unfold Surroundings.bind
  rw [h]
  exact ⟨rfl, rfl, rfl⟩

/-- A loop goes on to its next visit, or it is over and its block is closed next. -/
theorem threaded_visit {n k : Nat} {f : Frame} {l : Loop} {name : String} {frame : Bindings}
    {frames : List Bindings} (hst : m.stack = .block :: stack)
    (hfr : m.around.frames = frame :: frames) (hclear : m.around.Clear m.state.locals)
    (hl : Links (innermost stack) f l name) (hn : name ≠ "forloop")
    (hf : Bindings.get? "forloop" frame = some (.loop l)) (hk : k ≤ l.id) (hln : l.id < n)
    (hs : n ≤ m.state.positions.size) (h0 : 0 ≤ f.begun)
    (hc : Chain k m.state.positions stack frames) (how : Except Stop Unit) :
    (m.resume how f).Threaded := by
  have hpop : m.around.pop.frames = frames := by
    rw [Surroundings.pop, hfr, List.tail_cons]
  have outer : Threads stack m.around.pop m.state.locals m.state.positions :=
    ⟨⟨hclear.locals, hclear.data, hclear.globals⟩, k, by omega, hpop.symm ▸ hc⟩
  have next (v : Value) {g : Frame} (hl : Links (innermost stack) g l name)
      (hb : g.begun = f.begun + 1) :
      Threads (g :: m.stack) (m.around.bind name v) m.state.locals
        (m.state.positions.setIfInBounds l.id (some f.begun)) := by
    obtain ⟨hframes, hdata, hglobals⟩ := frames_bind hfr name v
    have hf' : Bindings.get? "forloop" (frame.set name v) = some (.loop l) :=
      (Bindings.get?_set_of_ne hn.symm v frame).trans hf
    refine ⟨⟨hclear.locals, hdata ▸ hclear.data, hglobals ▸ hclear.globals⟩, n, ?_, ?_⟩
    · rw [Array.size_setIfInBounds]
      exact hs
    · rw [hst, hframes]
      exact .moved hl hn hf' hk hln hs h0 hb hc
  -- The frame of the loop is gone, its block is still open: the second case of the invariant.
  have closes (how : Except Stop Unit) : (m.endWith how).Threaded :=
    .inr ⟨⟨how, rfl⟩, stack, hst, outer⟩
  cases hl with
  | @visits _ _ body position items before hparent =>
    rcases how with (signal | e) | _
    case error.signal =>
      cases signal with
      | leave => exact closes _
      | next =>
        cases items with
        | nil => exact closes _
        | cons v rest => exact .inl (next v (.visits before hparent) rfl)
    case error.error => exact closes _
    case ok =>
      cases items with
      | nil => exact closes _
      | cons v rest => exact .inl (next v (.visits before hparent) rfl)
  | @items _ _ t position items hparent =>
    cases how with
    | error stop => exact closes _
    | ok =>
      cases items with
      | nil => exact closes _
      | cons v rest => exact .inl (next v (.items hparent) rfl)

theorem threaded_resume {f : Frame} (how : Except Stop Unit)
    (h : Threads (f :: m.stack) m.around m.state.locals m.state.positions) :
    (m.resume how f).Threaded := by
  obtain ⟨hclear, n, hn, hc⟩ := h
  generalize hst : f :: m.stack = stack at hc
  generalize hfr : m.around.frames = frames at hc
  cases hc with
  | nil => cases hst
  | behind hc =>
    cases hst
    cases how <;> exact .inl ⟨hclear, n, hn, hfr ▸ hc⟩
  | block hf hc =>
    cases hst
    have hpop : m.around.pop.frames = _ := congrArg List.tail hfr
    exact .inl ⟨⟨hclear.locals, hclear.data, hclear.globals⟩, n, hn, hpop ▸ hc⟩
  | isolation hclear' ho hc =>
    cases hst
    exact .inl ⟨hclear', _, ho, hc⟩
  | template hc =>
    cases hst
    exact .inl ⟨hclear, n, hn, hfr ▸ hc⟩
  | captured hname hc =>
    cases hst
    cases how with
    | error stop => exact .inl ⟨hclear, n, hn, hfr ▸ hc⟩
    | ok => exact threaded_done (Run.spares_assign hname _) ⟨hclear, n, hn, hfr ▸ hc⟩
  | host hc =>
    cases hst
    rcases how with (signal | e) | _ <;> exact .inl ⟨hclear, n, hn, hfr ▸ hc⟩
  | loop hl hname hf hk hln h0 _ hc =>
    obtain ⟨hfe, hrest⟩ := List.cons.inj hst
    subst hfe
    exact threaded_visit hrest hfr hclear hl hname hf hk hln hn h0 hc how

/-- A step that leaves the name for loops to the loops, whatever the host answers. -/
def Abides (m m' : Machine) : Prop := ∃ engine, ¬ m.Rebinds engine ∧ m.step engine = some m'

/-- No such step breaks the invariant. -/
theorem threaded_step (h : m.Threaded) (hs : Abides m m') : m'.Threaded := by
  obtain ⟨engine, hr, hs⟩ := hs
  unfold step at hs
  rcases h with h | ⟨⟨how, hc⟩, stack, hst, h⟩
  · split at hs
    case h_1 => cases hs; exact .inl h
    case h_2 =>
      cases hs
      obtain ⟨n, hn, hch⟩ := h.chain
      exact .inl ⟨h.clear, n, hn, .behind hch⟩
    case h_3 hc => cases hs; exact threaded_node hc h hr
    case h_4 =>
      cases hs
      obtain ⟨n, hn, hch⟩ := h.chain
      exact .inl ⟨h.clear, n, hn, .template hch⟩
    case h_5 hc => cases hs; exact threaded_program hc h hr
    case h_6 how hc =>
      split at hs
      · cases hs
      · rename_i f rest hst
        cases hs
        exact threaded_resume how (hst ▸ h)
  · rw [hc, hst] at hs
    cases hs
    exact .inl h

theorem threaded_run {env : Environment} {t : Template} {data : Bindings}
    (hd : data.get? "forloop" = none) (hg : env.globals.get? "forloop" = none)
    (hm : Relation.ReflTransGen Abides (start env t data) m) : m.Threaded := by
  induction hm with
  | refl => exact .inl ⟨⟨rfl, hd, hg⟩, 0, Nat.zero_le _, .nil⟩
  | tail _ hs ih => exact threaded_step ih hs

/-- Wherever something is done, the loops of the scope chain are threaded. -/
theorem threads_of_busy (h : m.Threaded) (hc : ∀ how, m.control ≠ .ended how) :
    Threads m.stack m.around m.state.locals m.state.positions := by
  rcases h with h | ⟨⟨how, he⟩, -⟩
  · exact h
  · exact absurd he (hc how)

section

variable (h : Threads m.stack m.around m.state.locals m.state.positions) {f : Frame}
  {outer : List Frame} (hf : loopsAround m.stack = f :: outer)

include h

theorem Threads.position : ∀ f ∈ loopsAround m.stack, ∃ l, f.loop? = some l ∧
    (l.now m.state.positions).position = max 0 (f.begun - 1) := by
  intro f hf
  obtain ⟨n, -, hch⟩ := h.chain
  obtain ⟨l, hl, hp⟩ := hch.position hf
  refine ⟨l, hl, ?_⟩
  rw [(now_loop l _).2, hp]
  rfl

include hf

theorem Threads.forloopAt_eq_nil : forloopAt m.state.positions outer = .nil ↔ outer = [] := by
  cases outer with
  | nil => exact ⟨fun _ => rfl, fun _ => rfl⟩
  | cons g rest =>
    obtain ⟨l, hl, -⟩ := h.position g (hf ▸ List.mem_cons_of_mem f List.mem_cons_self)
    rw [forloopAt, List.head?_cons, Option.bind_some, hl]
    refine iff_of_false (fun h => ?_) (List.cons_ne_nil g rest)
    cases h

theorem Threads.lookup_eq (l : Loop) (hl : f.loop? = some l) :
    m.view.lookup "forloop" = .loop (l.now m.state.positions) := by
  have hlook : m.view.scope.lookup? "forloop" = some (.loop l) := by
    refine h.lookup.trans ?_
    rw [innermost, hf, List.head?_cons, Option.bind_some, hl]
    rfl
  rw [View.lookup, Scope.lookup, hlook]
  rfl

theorem Threads.eval_parentloop (strict : Bool) (pos pos' : Position) :
    (Expr.property pos (.name pos' "forloop") "parentloop").eval m.view strict =
      .ok (if f.isVisits then forloopAt m.state.positions outer else .nil) := by
  obtain ⟨n, -, hch⟩ := h.chain
  obtain ⟨l, hl, hparent⟩ := hch.parent hf
  have he := eval_loopAttributes (h.lookup_eq hf l hl) ("parentloop", _)
    (List.mem_append_right _ List.mem_cons_self) strict pos pos'
  rw [Loop.parent_now, hparent] at he
  rw [he]
  cases f.isVisits with
  | false => rfl
  | true =>
    rw [if_pos rfl, if_pos rfl, Option.map_map]
    rfl

end

/-- **Loops know the loops around them.** As long as nothing but loops binds the name for them, it
means the innermost loop of the scope chain wherever something is done inside one, across all
templates that are rendered among the same names; and each loop stands at the item of the visit that
began last.  The parent of a loop of its own tag is the next loop of the scope chain, of either
kind, as it stands now, and nil exactly where there is none.  The loop through the items of a tag has
no parent. -/
theorem parent_of_loop {env : Environment} {t : Template} {data : Bindings}
    (hd : data.get? "forloop" = none) (hg : env.globals.get? "forloop" = none)
    (hm : Relation.ReflTransGen Abides (start env t data) m)
    (hc : ∀ how, m.control ≠ .ended how) :
    (∀ f ∈ loopsAround m.stack, ∃ l, f.loop? = some l ∧
      (l.now m.state.positions).position = max 0 (f.begun - 1)) ∧
    ∀ f outer, loopsAround m.stack = f :: outer →
      m.view.lookup "forloop" = forloopAt m.state.positions (f :: outer) ∧
      (∀ strict pos pos',
        (Expr.property pos (.name pos' "forloop") "parentloop").eval m.view strict =
          .ok (if f.isVisits then forloopAt m.state.positions outer else .nil)) ∧
      (forloopAt m.state.positions outer = .nil ↔ outer = []) := by
  have h := threads_of_busy (threaded_run hd hg hm) hc
  refine ⟨h.position, fun f outer hf => ⟨?_, h.eval_parentloop hf, h.forloopAt_eq_nil hf⟩⟩
  obtain ⟨l, hl, -⟩ := h.position f (hf ▸ List.mem_cons_self)
  rw [h.lookup_eq hf l hl, forloopAt, List.head?_cons, Option.bind_some, hl]
  rfl

section

open Spelling

/-- The template of one loop that is left at once, as it is loaded. -/
def leavingPart : Loaded where
  source := leaving.source
  name := some "part"
  filename := none
  nodes := leaving.nodes
  number := 0

/-- The words of a tag that includes it for one item. -/
def goingWords : List Spelling :=
  includingWords ++ (loopWords.take 1 ++
    [ofString ['q'] rfl, ofName 'a' ['s'] rfl, ofName 'm' [] rfl])

/-- The source `{% for n in "y" %}{% include "part" for "q" as m %}{% endfor %}`. -/
def nestedSource : List Char :=
  written .tag loopWords ++ (written .tag goingWords ++ written .tag [endingWord])

/-- A loop around the loop of a tag around another loop. -/
def nested : Template where
  source := String.ofList nestedSource
  name := some "page"
  filename := none
  nodes :=
    [.loop ⟨3, 1, 3⟩ ⟨"n", .const ⟨12, 1, 12⟩ (.text "y"), none, none, false⟩
      [.include ⟨21, 1, 21⟩ ⟨.const ⟨29, 1, 29⟩ (.text "part"), none, some "m", []⟩
        (some (.const ⟨40, 1, 40⟩ (.text "q")))] []]

/-- An environment with the included template on its shelf. -/
def nesting : Environment where
  engine := { loader := some (.table [("part", leavingPart.source)]), filters := {}, tags := {} }
  globals := []
  strict := false
  maxDepth := 1
  shelf := { cache := ⟨1, "", [("part", leavingPart)], 0, 0⟩, loads := 1 }


theorem parsed_nested : nested.Parsed := by
  have hend := Lexer.lexemes_written (flows_singleton (w := endingWord) (by decide))
    (fun _ : Region.tag = Region.tag => ⟨endingWord, [], rfl, by decide, by decide⟩)
    (Lexer.lexemes_nil false) false
  rw [List.append_nil] at hend
  have hgoing : Flows false goingWords false :=
    flows_cons (by decide) (flows_cons (by decide) (flows_cons (by decide) (flows_cons (by decide)
      (flows_cons (by decide) (flows_singleton (by decide))))))
  have hgoes := Lexer.lexemes_written hgoing
    (fun _ : Region.tag = Region.tag => ⟨_, _, rfl, by decide, by decide⟩) hend false
  have hloop : Flows false loopWords false :=
    flows_cons (by decide) (flows_cons (by decide) (flows_cons (by decide)
      (flows_singleton (by decide))))
  have hl := Lexer.lexemes_written hloop
    (fun _ : Region.tag = Region.tag => ⟨_, _, rfl, by decide, by decide⟩) hgoes false
  refine ⟨[], String.ofList nestedSource, ?_⟩
  rw [nestedSource, parse_of_tokenize (tokenize_of_lexemes hl)]
  refine (Reading.readNodes_tag rfl rfl (by cbv) (Reading.returns_of_map (by cbv))).trans ?_
  refine (Reading.readNodes_adds rfl rfl (by cbv) (Reading.returns_of_map (by cbv))).trans ?_
  refine (Reading.readNodes_end rfl rfl (by cbv) (by cbv) (by cbv) rfl).trans ?_
  refine (Reading.readNodes_eof rfl).trans ?_
  cbv

theorem parsed_nesting : nesting.shelf.Parsed := by
  intro name t h
  obtain ⟨rfl, rfl⟩ := Prod.mk.inj (List.mem_singleton.1 h)
  exact parsed_leaving

/-- Whether neither a node nor a program of the host is due. -/
def isBetween (m : Machine) : Bool :=
  match m.control with
  | .node _ | .program _ _ _ _ => false
  | _ => true

theorem Abides.between (engine : Engine) (hs : m.step engine = some m')
    (hc : m.isBetween = true) : Abides m m' := by
  refine ⟨engine, fun h => ?_, hs⟩
  cases h with
  | assign h | capture h | target h | written h | given h | hostAssign h | hostFrame h
  | hostData h =>
    rw [isBetween, h] at hc
    cases hc

/-- A loop with another target leaves the name alone. -/
theorem Abides.loop (engine : Engine) {pos : Position} {head : LoopHead}
    {body otherwise : List Node} (hs : m.step engine = some m')
    (hc : m.control = .node (.loop pos head body otherwise)) (ht : head.target ≠ "forloop") :
    Abides m m' := by
  refine ⟨engine, fun h => ?_, hs⟩
  cases h with
  | target h h' =>
    cases hc.symm.trans h
    exact ht h'
  | written h h' | given h h' =>
    cases hc.symm.trans h
    cases h'
  | assign h | capture h | hostAssign h | hostFrame h | hostData h => cases hc.symm.trans h

/-- So does a template that is asked for with other names. -/
theorem Abides.include (engine : Engine) {pos : Position} {what : Inclusion} {each : Option Expr}
    (hs : m.step engine = some m') (hc : m.control = .node (.include pos what each))
    (hb : "forloop" ∉ what.bindings.map Prod.fst) (ha : ∀ t, Run.aliasIn what t ≠ "forloop") :
    Abides m m' := by
  refine ⟨engine, fun h => ?_, hs⟩
  cases h with
  | written h h' hm =>
    cases hc.symm.trans h
    cases h'
    exact hb hm
  | given h h' _ _ hn =>
    cases hc.symm.trans h
    cases h'
    exact ha _ hn
  | assign h | capture h | target h | hostAssign h | hostFrame h | hostData h =>
    cases hc.symm.trans h




/-- The page comes to the included template, inside the loop of the tag, and then to a tag inside
the loop of that template. -/
theorem nested_runs :
    ∃ m m', Relation.ReflTransGen Abides (start nesting nested []) m ∧
      (∀ how, m.control ≠ .ended how) ∧
      (∃ f g, loopsAround m.stack = [f, g] ∧ f.isVisits = false) ∧
      Relation.ReflTransGen Abides m m' ∧ (∀ how, m'.control ≠ .ended how) ∧
      ∃ f g h, loopsAround m'.stack = [f, g, h] ∧ f.isVisits = true := by
  let engine := nesting.engine
  exact ⟨_, _, .head (.between engine rfl rfl) (.head (.loop engine rfl rfl (by decide))
    (.head (.between engine rfl rfl) (.head (.between engine rfl rfl)
      (.head (.include engine rfl rfl (by decide) fun _ => (by decide : "m" ≠ "forloop"))
        (.head (.between engine rfl rfl) (.head (.between engine rfl rfl) .refl)))))),
    fun _ => Control.noConfusion, ⟨_, _, rfl, rfl⟩, .head (.between engine rfl rfl) (.head (.loop engine rfl rfl (by decide))
      (.head (.between engine rfl rfl) (.head (.between engine rfl rfl) .refl))),
    fun _ => Control.noConfusion, _, _, _, rfl, rfl⟩

/-- The loop of the included template has the loop of the tag for its parent. -/
theorem parent_of_loop_nested :
    Bindings.get? "forloop" [] = none ∧ nesting.globals.get? "forloop" = none ∧
      ∃ m, Relation.ReflTransGen Abides (start nesting nested []) m ∧
        (∀ how, m.control ≠ .ended how) ∧
        ∃ f g h, loopsAround m.stack = [f, g, h] ∧
          (Expr.property ⟨0, 1, 0⟩ (.name ⟨0, 1, 0⟩ "forloop") "parentloop").eval m.view false =
            .ok (forloopAt m.state.positions [g, h]) ∧
          forloopAt m.state.positions [g, h] ≠ .nil := by
  obtain ⟨_, m, hm, -, -, hm', hbusy, f, g, h, hf, hv⟩ := nested_runs
  have hrun := hm.trans hm'
  obtain ⟨-, hparent, hnil⟩ := (parent_of_loop rfl rfl hrun hbusy).2 f [g, h] hf
  refine ⟨rfl, rfl, m, hrun, hbusy, f, g, h, hf, ?_, fun hn => List.cons_ne_nil _ _ (hnil.1 hn)⟩
  rw [hparent, hv, if_pos rfl]

/-- But the loop of the tag has no parent, though it goes on inside the loop of the page. -/
theorem not_always_parent :
    ¬ ∀ (env : Environment) (t : Template) (data : Bindings) (m : Machine),
      t.Parsed → env.shelf.Parsed → data.get? "forloop" = none →
      env.globals.get? "forloop" = none → Relation.ReflTransGen Abides (start env t data) m →
      (∀ how, m.control ≠ .ended how) → ∀ f outer, loopsAround m.stack = f :: outer →
        ∀ strict pos pos',
          (Expr.property pos (.name pos' "forloop") "parentloop").eval m.view strict =
            .ok (forloopAt m.state.positions outer) := by
  intro claimed
  obtain ⟨m, -, hm, hbusy, ⟨f, g, hf, hv⟩, -⟩ := nested_runs
  have h := threads_of_busy (threaded_run rfl rfl hm) hbusy
  have hnil := h.eval_parentloop hf false ⟨0, 1, 0⟩ ⟨0, 1, 0⟩
  have hsaid := claimed nesting nested [] m parsed_nested parsed_nesting rfl rfl hm hbusy f [g] hf
  rw [hsaid, hv] at hnil
  have hg : forloopAt m.state.positions [g] = .nil := Except.ok.inj hnil
  exact List.cons_ne_nil _ _ ((h.forloopAt_eq_nil hf).1 hg)

end

end Machine

end Liquid
