import Liquid.Proofs.Filtering.Evenhanded
import Liquid.Proofs.Rendering.Isolation
import Liquid.Proofs.Rendering.Reasons
import Liquid.Proofs.Rendering.Signals

/-!
# Data that is nil and data that is not there

A rendering does the same whether a name is bound to nil or not bound at all, as long as it does not
come to one of the few questions that tell the one from the other: it looks for nil among the keys
of a mapping that has such a key, or it gives nil for the argument of a filter that takes nothing,
but not nil, for an argument that is not given, or the reverse.

**Side by side.** Two renderings, the one with the name and the other without, go step by step; what
is bound on the way is the same in both but for nil and nothing.

* `Expr.akin_eval`, `Expr.akin_evalFiltered`: expressions.
* `Machine.akin_step`: what a step keeps.
* `Environment.nil_like_absent`: a template for which nothing tells them apart is rendered alike.
-/
namespace Liquid

/-! ## What is seen -/

/-- Every name has the same value in both, but for nil and nothing; the place is the same. -/
structure View.Akin (view view' : View) : Prop where
  lookup : ∀ name, (view.lookup name).Akin (view'.lookup name)
  place : view.place = view'.place

theorem View.Akin.enclosingLoop {view view' : View} (h : view.Akin view') :
    Run.enclosingLoop view = Run.enclosingLoop view' := by
  unfold Run.enclosingLoop
  rcases (h.lookup "forloop").cases with h | ⟨h, h'⟩ | ⟨h, h'⟩
  · rw [h]
  · rw [h, h']
  · rw [h, h']

/-- Two results that are the same error, or values that are related. -/
def Meets {α β : Type} (rel : α → β → Prop) (r : Except Error α) (r' : Except Error β) : Prop :=
  (∃ e, r = .error e ∧ r' = .error e) ∨ ∃ x y, r = .ok x ∧ r' = .ok y ∧ rel x y

section

variable {α β α' β' : Type} {rel : α → β → Prop} {rel' : α' → β' → Prop}

theorem meets_pure {x : α} {y : β} (h : rel x y) : Meets rel (pure x) (pure y) :=
  .inr ⟨x, y, rfl, rfl, h⟩

theorem meets_eq (r : Except Error α) : Meets Eq r r := by
  cases r with
  | error e => exact .inl ⟨e, rfl, rfl⟩
  | ok x => exact .inr ⟨x, x, rfl, rfl, rfl⟩

theorem Meets.bind {r : Except Error α} {r' : Except Error β} {f : α → Except Error α'}
    {f' : β → Except Error β'} (h : Meets rel r r')
    (hf : ∀ x y, r = .ok x → rel x y → Meets rel' (f x) (f' y)) :
    Meets rel' (r >>= f) (r' >>= f') := by
  rcases h with ⟨e, rfl, rfl⟩ | ⟨x, y, rfl, rfl, hxy⟩
  · exact .inl ⟨e, rfl, rfl⟩
  · exact hf x y rfl hxy

theorem meets_akin_iff {r r' : Except Error Value} :
    Meets Value.Akin r r' ↔ Value.AkinResults r r' := by
  constructor
  · rintro (⟨e, rfl, rfl⟩ | ⟨v, w, rfl, rfl, hv⟩)
    · exact .refl _
    · exact Value.akinResults_pure hv
  · exact Value.AkinResults.cases

end

namespace Expr

/-- The evaluation of an expression comes to a question that tells nil from nothing. -/
def Tells (view : View) : Expr → Prop
  | .const _ _ | .name _ _ => False
  | .property _ e _ => e.Tells view
  | .index _ a b | .contains _ a b =>
    a.Tells view ∨ ∃ v, a.eval view false = .ok v ∧
      (b.Tells view ∨ ∃ key, b.eval view false = .ok key ∧ v.TellsApart key)
  | .range _ a b | .compare _ a _ b =>
    a.Tells view ∨ ∃ v, a.eval view false = .ok v ∧ b.Tells view
  | .connect _ a word b =>
    a.Tells view ∨ ∃ v, a.eval view false = .ok v ∧ goesOn word v.isTruthy = true ∧ b.Tells view

variable {view view' : View}

theorem akin_asPosition {v w : Value} (h : v.Akin w) : v.asPosition.Akin w.asPosition := by
  rcases h.cases with rfl | ⟨rfl, rfl⟩ | ⟨rfl, rfl⟩
  · exact .refl _
  · exact Value.akin_nil
  · exact Value.akin_nil.symm

theorem isNil_asPosition (v : Value) : v.asPosition.isNil = v.isNil := by
  unfold Value.asPosition
  split
  · split <;> rfl
  · rfl

theorem akin_compareValues {v w x y : Value} (hv : v.Akin w) (hx : x.Akin y) (sign : Sign) :
    compareValues v sign x = compareValues w sign y := by
  cases sign with
  | equal => exact Value.akin_equals hv hx
  | notEqual =>
    unfold compareValues
    rw [Value.akin_equals hv hx]
  | order r =>
    have h₁ : v.compare r x = w.compare r x := hv.congr (f := fun v => v.compare r x) rfl
    have h₂ : w.compare r x = w.compare r y :=
      hx.congr (f := fun x => w.compare r x) (by simp [Value.compare, Value.isNil])
    simp only [compareValues, h₁, h₂]

/-- An expression has akin values among akin names, unless it tells nil from nothing. -/
theorem akin_eval (h : view.Akin view') {e : Expr} (hq : ¬ e.Tells view) :
    Meets Value.Akin (e.eval view false) (e.eval view' false) := by
  induction e with
  | const pos c => exact meets_pure (.refl _)
  | name pos n =>
    rw [eval_lenient_name, eval_lenient_name]
    exact meets_pure (h.lookup n)
  | property pos e n ih =>
    refine (ih hq).bind fun v w _ hv => ?_
    rw [hv.congr (f := fun v => v.segment (.text n)) rfl]
    exact meets_akin_iff.2 (.refl _)
  | index pos a b iha ihb =>
    obtain ⟨ha, hb⟩ := not_or.1 hq
    refine (iha ha).bind fun v w hev hv => ?_
    refine (ihb fun h => hb ⟨v, hev, .inl h⟩).bind fun k k' hek hk => ?_
    have hn : ¬ v.TellsApart k.asPosition := fun ht =>
      hb ⟨v, hev, .inr ⟨k, hek, isNil_asPosition k ▸ ht.1, ht.2⟩⟩
    rw [Value.akin_segment hv (akin_asPosition hk) hn]
    exact meets_akin_iff.2 (.refl _)
  | range pos a b iha ihb =>
    obtain ⟨ha, hb⟩ := not_or.1 hq
    refine (iha ha).bind fun v w hev hv => ?_
    refine (ihb fun h => hb ⟨v, hev, h⟩).bind fun x y _ hx => ?_
    rw [hv.congr (f := fun v => v.toInt 0) rfl, hx.congr (f := fun x => x.toInt 0) rfl]
    exact meets_akin_iff.2 (.refl _)
  | compare pos a sign b iha ihb =>
    obtain ⟨ha, hb⟩ := not_or.1 hq
    refine (iha ha).bind fun v w hev hv => ?_
    refine (ihb fun h => hb ⟨v, hev, h⟩).bind fun x y _ hx => ?_
    rw [akin_compareValues hv hx]
    exact meets_akin_iff.2 (.refl _)
  | contains pos a b iha ihb =>
    obtain ⟨ha, hb⟩ := not_or.1 hq
    refine (iha ha).bind fun v w hev hv => ?_
    refine (ihb fun h => hb ⟨v, hev, .inl h⟩).bind fun x y hex hx => ?_
    rw [Value.akin_contains hv hx fun ht => hb ⟨v, hev, .inr ⟨x, hex, ht⟩⟩]
    exact meets_akin_iff.2 (.refl _)
  | connect pos a word b iha ihb =>
    obtain ⟨ha, hb⟩ := not_or.1 hq
    rw [eval_connect, eval_connect]
    refine (iha ha).bind fun v w hev hv => ?_
    rw [← hv.congr (f := Value.isTruthy) rfl]
    cases hg : goesOn word v.isTruthy with
    | false => exact meets_akin_iff.2 (.refl _)
    | true =>
      refine (ihb fun h => hb ⟨v, hev, hg, h⟩).bind fun x y _ hx => ?_
      rw [hx.congr (f := Value.isTruthy) rfl]
      exact meets_akin_iff.2 (.refl _)

theorem akin_evalAll (h : view.Akin view') {es : List Expr} (hq : ∀ e ∈ es, ¬ e.Tells view) :
    Meets (List.Forall₂ Value.Akin) (evalAll view false es) (evalAll view' false es) := by
  induction es with
  | nil => exact meets_pure .nil
  | cons e rest ih =>
    obtain ⟨he, hrest⟩ := List.forall_mem_cons.1 hq
    exact (akin_eval h he).bind fun _ _ _ hv => (ih hrest).bind fun _ _ _ hvs =>
      meets_pure (.cons hv hvs)

theorem akin_evalNamed (h : view.Akin view') {es : List (String × Expr)}
    (hq : ∀ e ∈ es.map Prod.snd, ¬ e.Tells view) {b b' : Bindings} (hb : b.Akin b') :
    Meets Bindings.Akin (evalNamed view false es b) (evalNamed view' false es b') := by
  induction es generalizing b b' with
  | nil => exact meets_pure hb
  | cons entry rest ih =>
    obtain ⟨n, e⟩ := entry
    obtain ⟨he, hrest⟩ := List.forall_mem_cons.1 hq
    exact (akin_eval h he).bind fun _ _ _ hv => ih hrest (hb.set n hv)

end Expr

/-! ## Filters -/

/-- A filter is called with nil or nothing for the argument for which it makes a difference. -/
def FilterCall.Tells (view : View) (call : FilterCall) : Prop :=
  ∃ byPosition byName, Expr.evalAll view false call.arguments = .ok byPosition ∧
    Expr.evalNamed view false call.named [] = .ok byName ∧
      Arguments.TellApart call.name ⟨byPosition, byName⟩

/-- An engine with no filters and tags but those of the language. -/
structure Engine.Own (engine : Engine) : Prop where
  filters : ∀ name f, engine.filters.get? name = some f →
    ∃ now, (name, f) ∈ Environment.languageFilters now
  tags : ∀ name, engine.tags.get? name = none

section

variable {view view' : View} {engine : Engine}

theorem FilterCall.akin_apply (ho : engine.Own) (h : view.Akin view') {call : FilterCall}
    (hq : ∀ e ∈ call.exprs, ¬ e.Tells view) (hc : ¬ call.Tells view) {v w : Value}
    (hv : v.Akin w) : Meets Value.Akin (call.apply view engine.filters false v)
      (call.apply view' engine.filters false w) := by
  obtain ⟨ha, hn⟩ := List.forall_mem_append.1 hq
  unfold apply
  cases hf : engine.filters.get? call.name with
  | none =>
    refine .inl ⟨_, rfl, ?_⟩
    unfold unknown
    rw [h.place]
    rfl
  | some f =>
    obtain ⟨now, hm⟩ := ho.filters _ _ hf
    refine (Expr.akin_evalAll h ha).bind fun as as' hea has => ?_
    refine (Expr.akin_evalNamed h hn (.refl [])).bind fun bs bs' heb hbs => ?_
    have hargs : Arguments.Akin ⟨as, bs⟩ ⟨as', bs'⟩ := ⟨has, hbs⟩
    have hr := Environment.akin_languageFilters hm hv hargs fun ht => hc ⟨as, bs, hea, heb, ht⟩
    rcases hr.cases with ⟨e, he, he'⟩ | ⟨x, y, hx, hy, hxy⟩
    · rw [he, he']
      exact .inl ⟨_, rfl, rfl⟩
    · rw [hx, hy]
      exact .inr ⟨x, y, rfl, rfl, hxy⟩

theorem FilterCall.akin_applyAll (ho : engine.Own) (h : view.Akin view') {calls : List FilterCall}
    (hq : ∀ e ∈ calls.flatMap FilterCall.exprs, ¬ e.Tells view)
    (hc : ∀ call ∈ calls, ¬ call.Tells view) {v w : Value} (hv : v.Akin w) :
    Meets Value.Akin (applyAll view engine.filters false calls v)
      (applyAll view' engine.filters false calls w) := by
  induction calls generalizing v w with
  | nil => exact meets_pure hv
  | cons call rest ih =>
    rw [List.flatMap_cons] at hq
    obtain ⟨hq, hqs⟩ := List.forall_mem_append.1 hq
    obtain ⟨hc, hcs⟩ := List.forall_mem_cons.1 hc
    exact (akin_apply ho h hq hc hv).bind fun _ _ _ hx => ih hqs hcs hx

theorem Expr.akin_evalFiltered (ho : engine.Own) (h : view.Akin view') {e : Expr}
    {calls : List FilterCall} (he : ¬ e.Tells view)
    (hq : ∀ e ∈ calls.flatMap FilterCall.exprs, ¬ e.Tells view)
    (hc : ∀ call ∈ calls, ¬ call.Tells view) :
    Meets Value.Akin (e.evalFiltered view engine.filters false calls)
      (e.evalFiltered view' engine.filters false calls) :=
  (akin_eval h he).bind fun _ _ _ hv => FilterCall.akin_applyAll ho h hq hc hv

end

/-- Something in a node tells nil from nothing at a point: an expression, or the call of a filter. -/
def Node.Tells (view : View) (n : Node) : Prop :=
  (∃ e ∈ n.exprs, e.Tells view) ∨ ∃ call ∈ n.calls, call.Tells view

/-! ## Runs -/

/-- The same surroundings but for nil and nothing: the same globals, frames that bind the same names,
and data in which what is not there may be nil, unless there is a global of that name. -/
structure Surroundings.Akin (s s' : Surroundings) : Prop where
  globals : s.globals = s'.globals
  base : ∀ name, (((s.data.get? name).or (s.globals.get? name)).getD .undefined).Akin
    (((s'.data.get? name).or (s'.globals.get? name)).getD .undefined)
  frames : List.Forall₂ Bindings.Akin s.frames s'.frames
  strict : s.strict = s'.strict

/-- The same state but for nil and nothing among the local names. -/
structure State.Akin (st su : State) : Prop where
  output : st.output = su.output
  locals : st.locals.Akin su.locals
  line : st.line = su.line
  positions : st.positions = su.positions
  shelf : st.shelf = su.shelf

theorem State.Akin.withShelf {st su : State} (h : st.Akin su) (shelf : Shelf) :
    State.Akin { st with shelf } { su with shelf } := { h with shelf := rfl }

namespace Surroundings.Akin

variable {s s' : Surroundings}

theorem refl (s : Surroundings) : s.Akin s :=
  ⟨rfl, fun _ => .refl _, List.forall₂_same.2 fun b _ => .refl b, rfl⟩

theorem push (h : s.Akin s') {frame frame' : Bindings} (hf : frame.Akin frame') :
    (s.push frame).Akin (s'.push frame') := ⟨h.globals, h.base, .cons hf h.frames, h.strict⟩

theorem pop (h : s.Akin s') : s.pop.Akin s'.pop := by
  obtain ⟨globals, data, frames, strict⟩ := s
  obtain ⟨globals', data', frames', strict'⟩ := s'
  obtain ⟨hg, hb, hf, hs⟩ := h
  cases hf with
  | nil => exact ⟨hg, hb, .nil, hs⟩
  | cons _ hrest => exact ⟨hg, hb, hrest, hs⟩

theorem bind (h : s.Akin s') (name : String) (v : Value) : (s.bind name v).Akin (s'.bind name v) := by
  obtain ⟨globals, data, frames, strict⟩ := s
  obtain ⟨globals', data', frames', strict'⟩ := s'
  obtain ⟨hg, hb, hf, hs⟩ := h
  cases hf with
  | nil => exact ⟨hg, hb, .nil, hs⟩
  | cons hframe hrest => exact ⟨hg, hb, .cons (hframe.set name (.refl v)) hrest, hs⟩

theorem isolated (h : s.Akin s') {b b' : Bindings} (hb : b.Akin b') :
    (s.isolated b).Akin (s'.isolated b') := by
  refine ⟨h.globals, fun name => ?_, .nil, h.strict⟩
  change (((b.get? name).or (s.globals.get? name)).getD _).Akin
    (((b'.get? name).or (s'.globals.get? name)).getD _)
  rw [← h.globals]
  rcases hb.get? name with ⟨hn, hn'⟩ | ⟨v, w, hv, hw, hvw⟩
  · rw [hn, hn']
    exact .refl _
  · rw [hv, hw]
    exact hvw

/-- What is bound in a frame is bound in the other one too, so that both go on to what lies behind. -/
theorem findSome?_akin {frames frames' rest rest' : List Bindings} {name : String}
    (hf : List.Forall₂ Bindings.Akin frames frames')
    (h : ((rest.findSome? (Bindings.get? name)).getD .undefined).Akin
      ((rest'.findSome? (Bindings.get? name)).getD .undefined)) :
    (((frames ++ rest).findSome? (Bindings.get? name)).getD .undefined).Akin
      (((frames' ++ rest').findSome? (Bindings.get? name)).getD .undefined) := by
  induction hf with
  | nil => exact h
  | cons hframe _ ih =>
    rw [List.cons_append, List.cons_append, List.findSome?_cons, List.findSome?_cons]
    rcases hframe.get? name with ⟨hn, hn'⟩ | ⟨v, w, hv, hw, hvw⟩
    · rw [hn, hn']
      exact ih
    · rw [hv, hw]
      exact hvw

theorem lookup (h : s.Akin s') {locals locals' : Bindings} (hl : locals.Akin locals')
    (name : String) : (Scope.lookup ⟨s, locals⟩ name).Akin (Scope.lookup ⟨s', locals'⟩ name) := by
  have pair (data globals : Bindings) :
      [data, globals].findSome? (Bindings.get? name) = (data.get? name).or (globals.get? name) := by
    rw [List.findSome?_cons, List.findSome?_cons, List.findSome?_nil]
    cases data.get? name <;> cases globals.get? name <;> rfl
  refine findSome?_akin h.frames (findSome?_akin (.cons hl .nil) ?_)
  change (([s.data, s.globals].findSome? (Bindings.get? name)).getD .undefined).Akin
    (([s'.data, s'.globals].findSome? (Bindings.get? name)).getD .undefined)
  rw [pair, pair]
  exact h.base name

end Surroundings.Akin

namespace Run

variable {α β α' β' : Type} {rel : α → β → Prop} {rel' : α' → β' → Prop} {st su : State}
  {s s' : Setting}

/-- Two runs that only look, from two states: they end with the same error or with values that are
related. -/
def Meet (st su : State) (rel : α → β → Prop) (run : Run α) (run' : Run β) : Prop :=
  ∃ r r', run st = (r.mapError Stop.error, st) ∧ run' su = (r'.mapError Stop.error, su) ∧
    Meets rel r r'

theorem meet_ofExcept {r : Except Error α} {r' : Except Error β} (h : Meets rel r r') :
    Meet st su rel (ofExcept r) (ofExcept r') :=
  ⟨r, r', ofExcept_apply r st, ofExcept_apply r' su, h⟩

theorem meet_pure {x : α} {y : β} (h : rel x y) : Meet st su rel (pure x) (pure y) :=
  ⟨.ok x, .ok y, rfl, rfl, meets_pure h⟩

theorem meet_eq (r : Except Error α) : Meet st su Eq (ofExcept r) (ofExcept r) :=
  meet_ofExcept (meets_eq r)

theorem meet_bind {run : Run α} {run' : Run β} {f : α → Run α'} {f' : β → Run β'}
    (h : Meet st su rel run run') (hf : ∀ x y, rel x y → Meet st su rel' (f x) (f' y)) :
    Meet st su rel' (run >>= f) (run' >>= f') := by
  obtain ⟨r, r', hr, hr', hrel⟩ := h
  rcases hrel with ⟨e, rfl, rfl⟩ | ⟨x, y, rfl, rfl, hxy⟩
  · exact ⟨.error e, .error e, bind_of_error hr, bind_of_error hr', .inl ⟨e, rfl, rfl⟩⟩
  · obtain ⟨q, q', hq, hq', hrel'⟩ := hf x y hxy
    exact ⟨q, q', (bind_of_ok hr).trans hq, (bind_of_ok hr').trans hq', hrel'⟩

/-- Two points at which the same is seen but for nil and nothing, and names may mean nothing. -/
structure Beside (s s' : Setting) (st su : State) : Prop where
  own : s.engine.Own
  engine : s.engine = s'.engine
  place : s.place = s'.place
  around : s.around.Akin s'.around
  lenient : s.around.strict = false
  state : st.Akin su

variable (h : Beside s s' st su)

include h

theorem Beside.view : (s.view st).Akin (s'.view su) where
  lookup name := by
    unfold View.lookup
    rw [show (s'.view su).positions = (s.view st).positions from h.state.positions.symm]
    exact (h.around.lookup h.state.locals name).now _
  place := h.place

theorem meet_look : Meet st su View.Akin (look s) (look s') :=
  ⟨.ok _, .ok _, rfl, rfl, meets_pure h.view⟩

theorem meet_eval {e : Expr} (hq : ¬ e.Tells (s.view st)) :
    Meet st su Value.Akin (eval s e) (eval s' e) := by
  have hs : s'.around.strict = false := h.around.strict.symm.trans h.lenient
  refine ⟨_, _, eval_apply s e st, eval_apply s' e su, ?_⟩
  rw [h.lenient, hs]
  exact Expr.akin_eval h.view hq

theorem meet_evalFiltered {e : Expr} {calls : List FilterCall} (he : ¬ e.Tells (s.view st))
    (hq : ∀ e ∈ calls.flatMap FilterCall.exprs, ¬ e.Tells (s.view st))
    (hc : ∀ call ∈ calls, ¬ call.Tells (s.view st)) :
    Meet st su Value.Akin (evalFiltered s e calls) (evalFiltered s' e calls) := by
  have hs : s'.around.strict = false := h.around.strict.symm.trans h.lenient
  refine ⟨_, _, evalFiltered_apply s e calls st, evalFiltered_apply s' e calls su, ?_⟩
  rw [h.lenient, hs, ← h.engine]
  exact Expr.akin_evalFiltered h.own h.view he hq hc

theorem meet_evalItems {e : Expr} (hq : ¬ e.Tells (s.view st)) :
    Meet st su Eq (evalItems s e) (evalItems s' e) :=
  meet_bind (meet_eval h hq) fun v w hv => by
    rw [hv.congr (f := Value.toList?) rfl]
    exact meet_eq _

theorem meet_evalCount {e : Option Expr} (hq : ∀ x ∈ e.toList, ¬ x.Tells (s.view st)) :
    Meet st su Eq (evalCount s e) (evalCount s' e) := by
  cases e with
  | none => exact meet_pure rfl
  | some e =>
    refine meet_bind (meet_eval h (hq e (.head _))) fun v w hv => ?_
    rw [hv.congr (f := fun v => v.toInt 0) rfl]
    exact meet_pure rfl

theorem meet_loopItems {head : LoopHead} (hq : ∀ e ∈ head.exprs, ¬ e.Tells (s.view st)) :
    Meet st su Eq (loopItems s head) (loopItems s' head) := by
  obtain ⟨hi, hq⟩ := List.forall_mem_cons.1 hq
  obtain ⟨ho, hl⟩ := List.forall_mem_append.1 hq
  refine meet_bind (meet_evalItems h hi) fun items _ hitems => ?_
  refine meet_bind (meet_evalCount h ho) fun offset _ hoffset => ?_
  refine meet_bind (meet_evalCount h hl) fun limit _ hlimit => ?_
  rw [hitems, hoffset, hlimit]
  exact meet_pure rfl

theorem meet_evalBindings {bindings : List (String × Expr)}
    (hq : ∀ e ∈ bindings.map Prod.snd, ¬ e.Tells (s.view st)) :
    Meet st su Bindings.Akin (evalBindings s bindings) (evalBindings s' bindings) := by
  have hs : s'.around.strict = false := h.around.strict.symm.trans h.lenient
  refine ⟨_, _, ofExcept_apply _ st, ofExcept_apply _ su, ?_⟩
  rw [h.lenient, hs]
  exact Expr.akin_evalNamed h.view hq (.refl [])

theorem meet_evalGiven {what : Inclusion} (hq : ∀ e ∈ what.exprs, ¬ e.Tells (s.view st))
    (t : Loaded) : Meet st su Bindings.Akin (evalGiven s what t) (evalGiven s' what t) := by
  obtain ⟨hb, hg⟩ := List.forall_mem_append.1 (List.forall_mem_cons.1 hq).2
  refine meet_bind (meet_evalBindings h hb) fun b b' hbb => ?_
  cases hw : what.given with
  | none => exact meet_pure hbb
  | some e =>
    rw [hw] at hg
    exact meet_bind (meet_eval h (hg e (.head _))) fun v w hv => meet_pure (hbb.set _ hv)

theorem meet_chooseBranch {otherwise : List Node} {branches : List (Branch Node)}
    (hq : ∀ e ∈ branches.map Branch.test, ¬ e.Tells (s.view st)) :
    Meet st su Eq (chooseBranch s otherwise branches) (chooseBranch s' otherwise branches) := by
  induction branches with
  | nil => exact meet_pure rfl
  | cons b rest ih =>
    obtain ⟨hb, hrest⟩ := List.forall_mem_cons.1 hq
    refine meet_bind (meet_eval h hb) fun v w hv => ?_
    rw [hv.congr (f := Value.isTruthy) rfl]
    split
    · exact meet_pure rfl
    · exact ih hrest

theorem meet_chooseBody {test : Expr} {branches : List (Branch Node)}
    (hq : ∀ e ∈ test :: branches.map Branch.test, ¬ e.Tells (s.view st)) (negated : Bool)
    (body otherwise : List Node) :
    Meet st su Eq (chooseBody s negated test body branches otherwise)
      (chooseBody s' negated test body branches otherwise) := by
  obtain ⟨ht, hb⟩ := List.forall_mem_cons.1 hq
  refine meet_bind (meet_eval h ht) fun v w hv => ?_
  rw [hv.congr (f := Value.isTruthy) rfl]
  split
  · exact meet_pure rfl
  · exact meet_chooseBranch h hb

theorem meet_matchesAny {subject subject' : Value} (hs : subject.Akin subject')
    {values : List Expr} (hq : ∀ e ∈ values, ¬ e.Tells (s.view st)) :
    Meet st su Eq (matchesAny s subject values) (matchesAny s' subject' values) := by
  induction values with
  | nil => exact meet_pure rfl
  | cons e rest ih =>
    obtain ⟨he, hrest⟩ := List.forall_mem_cons.1 hq
    refine meet_bind (meet_eval h he) fun v w hv => ?_
    rw [Value.akin_equals hs hv]
    refine meet_bind (meet_eq _) fun b _ hb => ?_
    rw [← hb]
    split
    · exact meet_pure rfl
    · exact ih hrest

theorem meet_chooseWhen {subject subject' : Value} (hs : subject.Akin subject')
    {whens : List (When Node)} (hq : ∀ e ∈ whens.flatMap When.values, ¬ e.Tells (s.view st))
    (otherwise : List Node) :
    Meet st su Eq (chooseWhen s subject otherwise whens)
      (chooseWhen s' subject' otherwise whens) := by
  induction whens with
  | nil => exact meet_pure rfl
  | cons w rest ih =>
    rw [List.flatMap_cons] at hq
    obtain ⟨hw, hrest⟩ := List.forall_mem_append.1 hq
    refine meet_bind (meet_matchesAny h hs hw) fun b _ hb => ?_
    rw [← hb]
    split
    · exact meet_pure rfl
    · exact ih hrest

theorem meet_checkDepth (name : String) :
    Meet st su Eq (checkDepth s name) (checkDepth s' name) := by
  unfold checkDepth
  rw [← h.place]
  cases s.place with
  | none => exact ⟨.ok (), .ok (), rfl, rfl, meets_eq _⟩
  | some p =>
    refine ⟨_, _, ofExcept_apply _ st, ofExcept_apply _ su, ?_⟩
    rw [h.state.line]
    exact meets_eq _

/-- The same template is found, if one is found. -/
theorem find_beside {e : Expr} (hq : ¬ e.Tells (s.view st)) (tag : String) :
    ∃ (r : Except Error Loaded) (shelf : Shelf),
      find s tag e st = (r.mapError Stop.error, { st with shelf }) ∧
        find s' tag e su = (r.mapError Stop.error, { su with shelf }) := by
  have hfind (q : Setting) : find q tag e = (do
      let name := (← eval q e).toText
      checkDepth q name
      return name) >>= fetch q tag := by
    simp only [find, bind_assoc, pure_bind]
  have hname : Meet st su Eq (do
      let name := (← eval s e).toText
      checkDepth s name
      return name) (do
      let name := (← eval s' e).toText
      checkDepth s' name
      return name) :=
    meet_bind (meet_eval h hq) fun v w hv => by
      rw [hv.congr (f := Value.toText) rfl]
      exact meet_bind (meet_checkDepth h _) fun _ _ _ => meet_pure rfl
  obtain ⟨r, r', hr, hr', hrel⟩ := hname
  rw [hfind, hfind]
  rcases hrel with ⟨err, rfl, rfl⟩ | ⟨name, _, rfl, rfl, rfl⟩
  · exact ⟨.error err, st.shelf, bind_of_error hr,
      (bind_of_error hr').trans (by rw [h.state.shelf]; rfl)⟩
  · refine ⟨_, _, (bind_of_ok hr).trans (fetch_apply s tag name st), (bind_of_ok hr').trans ?_⟩
    rw [fetch_apply, ← h.engine, h.state.shelf]

omit h

end Run

/-! ## Machines -/

/-- A tag of the host is at work. -/
def Control.isProgram : Control → Bool
  | .program _ _ _ _ => true
  | _ => false

/-- The same thing waits, but for nil and nothing among the names that were put aside, and it is no
tag of the host. -/
inductive Frame.Akin : Frame → Frame → Prop where
  | same (f : Frame) (own : f.isHost = false) : Akin f f
  | isolation {around around' locals locals' positions} :
    around.Akin around' → Bindings.Akin locals locals' →
    Akin (.isolation around locals positions) (.isolation around' locals' positions)

namespace Machine

/-- Two machines that do the same among the same names, but for nil and nothing, and no tag of the
host. -/
structure Akin (m m' : Machine) : Prop where
  control : m.control = m'.control
  own : m.control.isProgram = false
  stack : List.Forall₂ Frame.Akin m.stack m'.stack
  around : m.around.Akin m'.around
  place : m.place = m'.place
  state : m.state.Akin m'.state

/-- The node that is begun at this point tells nil from nothing. -/
def Tells (m : Machine) : Prop := ∃ n, m.control = .node n ∧ n.Tells m.view

variable {m m' : Machine} {engine : Engine}

theorem Akin.goOn (h : m.Akin m') (c : Control) (hc : c.isProgram = false) :
    Machine.Akin { m with control := c } { m' with control := c } :=
  { h with control := rfl, own := hc }

theorem Akin.wait (h : m.Akin m') {f f' : Frame} (hf : f.Akin f') : (m.wait f).Akin (m'.wait f') :=
  { h with stack := .cons hf h.stack }

theorem Akin.openBlock (h : m.Akin m') {frame frame' : Bindings} (hf : frame.Akin frame') :
    (m.openBlock frame).Akin (m'.openBlock frame') :=
  { h with stack := .cons (.same .block rfl) h.stack, around := h.around.push hf }

theorem Akin.withState (h : m.Akin m') {st su : State} (hs : st.Akin su) :
    Machine.Akin { m with state := st } { m' with state := su } :=
  { h with state := hs }

theorem Akin.withStack (h : m.Akin m') {stack stack' : List Frame}
    (hs : List.Forall₂ Frame.Akin stack stack') :
    Machine.Akin { m with stack } { m' with stack := stack' } :=
  { h with stack := hs }

theorem Akin.bind (h : m.Akin m') (name : String) (v : Value) :
    Machine.Akin { m with around := m.around.bind name v }
      { m' with around := m'.around.bind name v } :=
  { h with around := h.around.bind name v }

theorem loopBoundNamed_akin {b b' : Bindings} (h : b.Akin b') :
    Value.loopBoundNamed b = Value.loopBoundNamed b' := by
  induction h with
  | nil => rfl
  | @cons p q _ _ hpq _ ih =>
    obtain ⟨n, v⟩ := p
    obtain ⟨n', w⟩ := q
    rw [Value.loopBoundNamed, Value.loopBoundNamed, ih]
    rw [(show v.Akin w from hpq.2).congr (f := Value.loopBound) rfl]

theorem Akin.isolate (h : m.Akin m') {b b' : Bindings} (hb : b.Akin b') :
    (m.isolate b).Akin (m'.isolate b') where
  control := h.control
  own := h.own
  stack := by
    simp only [Machine.isolate, Machine.wait, h.state.positions]
    exact .cons (.isolation h.around h.state.locals) h.stack
  around := h.around.isolated hb
  place := h.place
  state := by
    refine { h.state with locals := .refl [], positions := ?_ }
    change Positions.outside (max (Value.loopBoundNamed m.around.globals) (Value.loopBoundNamed b)) =
      Positions.outside (max (Value.loopBoundNamed m'.around.globals) (Value.loopBoundNamed b'))
    rw [h.around.globals, loopBoundNamed_akin hb]

/-! ## Steps -/

/-- What does the same to both leaves them side by side. -/
theorem akin_perform {α : Type} {run run' : Run α} {next next' : Machine → α → Machine}
    {r : Except Stop α} {s t : State} (h : m.Akin m') (hs : s.Akin t)
    (hr : run m.state = (r, s)) (hr' : run' m'.state = (r, t))
    (hn : ∀ x, r = .ok x → Machine.Akin { m with state := s } { m' with state := t } →
      (next { m with state := s } x).Akin (next' { m' with state := t } x)) :
    (m.perform run next).Akin (m'.perform run' next') := by
  unfold perform
  rw [hr, hr']
  cases r with
  | error stop => exact (h.withState hs).goOn _ rfl
  | ok x => exact hn x rfl (h.withState hs)

/-- What only looks leaves them where they are. -/
theorem akin_perform_meet {α β : Type} {R : α → β → Prop} {run : Run α} {run' : Run β}
    {next : Machine → α → Machine} {next' : Machine → β → Machine} (h : m.Akin m')
    (hr : Run.Meet m.state m'.state R run run')
    (hn : ∀ x y, R x y → (next m x).Akin (next' m' y)) :
    (m.perform run next).Akin (m'.perform run' next') := by
  obtain ⟨r, r', hr, hr', hrel⟩ := hr
  unfold perform
  rw [hr, hr']
  rcases hrel with ⟨e, rfl, rfl⟩ | ⟨x, y, rfl, rfl, hxy⟩
  · exact h.goOn _ rfl
  · exact hn x y hxy

theorem Akin.beside (h : m.Akin m') (ho : engine.Own) (hl : m.around.strict = false) :
    Run.Beside (m.setting engine) (m'.setting engine) m.state m'.state :=
  ⟨ho, rfl, h.place, h.around, hl, h.state⟩

theorem akin_write (h : m.Akin m') (text : String) :
    (m.perform (Run.write text) fun m () => m.done).Akin
      (m'.perform (Run.write text) fun m () => m.done) := by
  refine akin_perform (s := { m.state with output := m.state.output ++ text })
    (t := { m'.state with output := m'.state.output ++ text }) (r := .ok ()) h
    { h.state with output := ?_ } rfl rfl fun _ _ h => h.goOn _ rfl
  rw [h.state.output]

/-- To do two things is to do the one and go on with the other. -/
theorem perform_bind {α β : Type} (m : Machine) (run : Run α) (f : α → Run β)
    (next : Machine → β → Machine) :
    m.perform (run >>= f) next = m.perform run fun m x => m.perform (f x) next := by
  unfold perform
  rw [Run.bind_apply]
  rcases run m.state with ⟨stop | x, st⟩ <;> rfl

theorem akin_assign (h : m.Akin m') (name : String) {v w : Value} (hv : v.Akin w) :
    (m.perform (Run.assign name v) fun m () => m.done).Akin
      (m'.perform (Run.assign name w) fun m () => m.done) :=
  akin_perform (s := { m.state with locals := m.state.locals.set name v })
    (t := { m'.state with locals := m'.state.locals.set name w }) (r := .ok ()) h
    { h.state with locals := h.state.locals.set name hv } rfl rfl fun _ _ h => h.goOn _ rfl

/-- Loops that are begun have the same number. -/
theorem akin_beginLoop (h : m.Akin m') (length : Int) (parent : Option Loop)
    {next next' : Machine → Loop → Machine}
    (hn : ∀ l st su, Machine.Akin { m with state := st } { m' with state := su } →
      (next { m with state := st } l).Akin (next' { m' with state := su } l)) :
    (m.perform (Run.beginLoop length parent) next).Akin
      (m'.perform (Run.beginLoop length parent) next') := by
  refine akin_perform
    (s := { m.state with positions := m.state.positions.push (some 0) })
    (t := { m'.state with positions := m'.state.positions.push (some 0) })
    (r := .ok ⟨m.state.positions.size, length, 0, parent⟩) h
    { h.state with positions := ?_ } rfl ?_ fun l _ h => hn l _ _ h
  · rw [h.state.positions]
  · rw [h.state.positions]
    rfl

theorem akin_include (ho : engine.Own) (hl : m.around.strict = false) (h : m.Akin m')
    {what : Inclusion} {each : Option Expr}
    (hq : ∀ e ∈ what.exprs ++ each.toList, ¬ e.Tells m.view) (pos : Position) :
    (m.node engine (.include pos what each)).Akin (m'.node engine (.include pos what each)) := by
  obtain ⟨hw, he⟩ := List.forall_mem_append.1 hq
  obtain ⟨r, shelf, hr, hr'⟩ :=
    Run.find_beside (h.beside ho hl) (List.forall_mem_cons.1 hw).1 "include"
  simp only [node]
  refine akin_perform h (h.state.withShelf shelf) hr hr' fun t _ h₁ => ?_
  have hb := h₁.beside ho hl
  cases each with
  | none =>
    refine akin_perform_meet h₁ (Run.meet_evalGiven hb hw t) fun b b' hbb => ?_
    exact (h₁.openBlock hbb).goOn _ rfl
  | some e =>
    have hbindings := (List.forall_mem_append.1 (List.forall_mem_cons.1 hw).2).1
    simp only [Run.beginItems, perform_bind]
    refine akin_perform_meet h₁ (Run.meet_evalBindings hb hbindings) fun b b' hbb => ?_
    refine akin_perform_meet h₁ (Run.meet_evalItems hb (he e (.head _))) ?_
    rintro items _ rfl
    refine akin_beginLoop h₁ _ none fun l st su h₂ => ?_
    exact ((h₂.openBlock (hbb.set "forloop" (.refl _))).wait (.same _ rfl)).goOn _ rfl

theorem akin_loop (ho : engine.Own) (hl : m.around.strict = false) (h : m.Akin m')
    {head : LoopHead} (hq : ∀ e ∈ head.exprs, ¬ e.Tells m.view) (pos : Position)
    (body otherwise : List Node) :
    (m.node engine (.loop pos head body otherwise)).Akin
      (m'.node engine (.loop pos head body otherwise)) := by
  have hb := h.beside ho hl
  simp only [node]
  refine akin_perform_meet h (Run.meet_loopItems hb hq) ?_
  rintro items _ rfl
  cases items with
  | nil => exact h.goOn _ rfl
  | cons v rest =>
    simp only [perform_bind]
    refine akin_perform_meet h (Run.meet_look hb) fun view view' hv => ?_
    rw [hv.enclosingLoop]
    refine akin_beginLoop h _ _ fun l st su h₁ => ?_
    have hf : Bindings.Akin [("forloop", .loop l)] [("forloop", .loop l)] := .refl _
    exact ((h₁.openBlock hf).wait (.same _ rfl)).goOn _ rfl

theorem akin_node (ho : engine.Own) (hl : m.around.strict = false) (h : m.Akin m') {n : Node}
    (hq : ¬ n.Tells m.view) : (m.node engine n).Akin (m'.node engine n) := by
  have hb := h.beside ho hl
  obtain ⟨hexprs, hcalls⟩ := not_or.1 hq
  have hexprs : ∀ e ∈ n.exprs, ¬ e.Tells ((m.setting engine).view m.state) :=
    fun e he ht => hexprs ⟨e, he, ht⟩
  have hcalls : ∀ call ∈ n.calls, ¬ call.Tells ((m.setting engine).view m.state) :=
    fun call hc ht => hcalls ⟨call, hc, ht⟩
  cases n with
  | text pos text | raw pos text => exact akin_write h text
  | comment pos text | signal pos signal => exact h.goOn _ rfl
  | assign pos name e filters =>
    obtain ⟨he, hf⟩ := List.forall_mem_cons.1 hexprs
    simp only [node, perform_bind]
    exact akin_perform_meet h (Run.meet_evalFiltered hb he hf hcalls) fun v w hv =>
      akin_assign h name hv
  | capture pos name body =>
    refine { h with control := rfl, own := rfl, state := { h.state with output := rfl }, stack := ?_ }
    change List.Forall₂ Frame.Akin (.captured name m.state.output :: m.stack)
      (.captured name m'.state.output :: m'.stack)
    rw [h.state.output]
    exact .cons (.same _ rfl) h.stack
  | output pos e filters left right =>
    cases e with
    | none => exact h.goOn _ rfl
    | some e =>
      obtain ⟨he, hf⟩ := List.forall_mem_cons.1 hexprs
      simp only [node, perform_bind]
      refine akin_perform_meet h (Run.meet_evalFiltered hb he hf hcalls) fun v w hv => ?_
      rw [hv.congr (f := Value.toText) rfl]
      exact akin_write h w.toText
  | conditional pos negated test body branches otherwise =>
    refine akin_perform_meet h (Run.meet_chooseBody hb hexprs negated body otherwise) ?_
    rintro chosen _ rfl
    exact h.goOn _ rfl
  | choice pos subject whens otherwise =>
    obtain ⟨hs, hw⟩ := List.forall_mem_cons.1 hexprs
    refine akin_perform_meet h (Run.meet_bind (Run.meet_eval hb hs) fun v w hv =>
      Run.meet_chooseWhen hb hv hw otherwise) ?_
    rintro chosen _ rfl
    exact h.goOn _ rfl
  | loop pos head body otherwise => exact akin_loop ho hl h hexprs pos body otherwise
  | «include» pos what each => exact akin_include ho hl h hexprs pos
  | render pos what =>
    obtain ⟨r, shelf, hr, hr'⟩ :=
      Run.find_beside hb (List.forall_mem_cons.1 hexprs).1 "render"
    simp only [node]
    refine akin_perform h (h.state.withShelf shelf) hr hr' fun t _ h₁ => ?_
    refine akin_perform_meet h₁ (Run.meet_evalGiven (h₁.beside ho hl) hexprs t) fun b b' hb => ?_
    exact (h₁.isolate hb).goOn _ rfl
  | tag pos name arguments body markup =>
    simp only [node, setting, ho.tags]
    refine akin_perform_meet (R := Eq) h ⟨.error _, .error _, rfl, rfl, .inl ⟨_, rfl, ?_⟩⟩ ?_
    · rw [h.place, h.state.line]
    · rintro _ _ rfl
      exact h.goOn _ rfl

theorem akin_enter (h : m.Akin m') (t : Loaded) : (m.enter engine t).Akin (m'.enter engine t) := by
  refine { h with
    control := rfl
    own := rfl
    stack := ?_
    place := ?_
    state := { h.state with line := rfl } }
  · change List.Forall₂ Frame.Akin (.template m.place m.state.line :: m.stack)
      (.template m'.place m'.state.line :: m'.stack)
    rw [h.place, h.state.line]
    exact .cons (.same _ rfl) h.stack
  · change some (Run.placeOf (m.setting engine) m.state.line t) =
      some (Run.placeOf (m'.setting engine) m'.state.line t)
    simp only [Run.placeOf, setting, h.place, h.state.line]

/-- The next visit of a loop, or the next item of a template. -/
theorem akin_moveTo (h : m.Akin m') (l : Loop) (position : Int) {next next' : Machine → Machine}
    (hn : ∀ st su, Machine.Akin { m with state := st } { m' with state := su } →
      (next { m with state := st }).Akin (next' { m' with state := su })) :
    (m.perform (Run.moveTo l position) fun m () => next m).Akin
      (m'.perform (Run.moveTo l position) fun m () => next' m) := by
  refine akin_perform
    (s := { m.state with positions := m.state.positions.setIfInBounds l.id (some position) })
    (t := { m'.state with positions := m'.state.positions.setIfInBounds l.id (some position) })
    (r := .ok ()) h { h.state with positions := ?_ } rfl rfl fun _ _ h => hn _ _ h
  rw [h.state.positions]

theorem akin_visit (h : m.Akin m') (l : Loop) (target : String) (body : List Node) (position : Int)
    (v : Value) (rest : List Value) :
    (m.resume (.ok ()) (.visits l target body position (v :: rest))).Akin
      (m'.resume (.ok ()) (.visits l target body position (v :: rest))) := by
  simp only [resume]
  refine akin_moveTo h l position fun st su h => ?_
  exact ((h.bind target v).wait (.same _ rfl)).goOn (.nodes body) rfl

theorem akin_resume_same (h : m.Akin m') (how : Except Stop Unit) {f : Frame}
    (own : f.isHost = false) : (m.resume how f).Akin (m'.resume how f) := by
  cases f with
  | behind nodes => cases how <;> exact h.goOn _ rfl
  | block => exact { h with control := rfl, own := rfl, around := h.around.pop }
  | isolation around locals positions =>
    exact { h with
      control := rfl
      own := rfl
      around := .refl around
      state := { h.state with locals := .refl locals, positions := rfl } }
  | template place line =>
    refine { h with control := ?_, own := rfl, place := rfl, state := { h.state with line := rfl } }
    simp only [resume, endWith, h.place, h.state.line]
  | visits l target body position items =>
    rcases how with ((_ | _) | _) | _
    case error.error | error.signal.leave => exact h.goOn _ rfl
    all_goals
      cases items with
      | nil => exact h.goOn _ rfl
      | cons v rest => exact akin_visit h l target body position v rest
  | items l called t position items =>
    cases how with
    | error stop => exact h.goOn _ rfl
    | ok =>
      cases items with
      | nil => exact h.goOn _ rfl
      | cons v rest =>
        simp only [resume]
        refine akin_moveTo h l position fun st su h => ?_
        exact ((h.bind called v).wait (.same _ rfl)).goOn (.template t) rfl
  | captured name output =>
    have ho : Machine.Akin { m with state := { m.state with output } }
        { m' with state := { m'.state with output } } := h.withState { h.state with output := rfl }
    cases how with
    | error stop => exact ho.goOn _ rfl
    | ok =>
      simp only [resume, h.state.output]
      exact akin_assign ho name (.refl _)
  | host tag body next output => cases own

/-- A frame is taken up again alike. -/
theorem akin_resume (h : m.Akin m') (how : Except Stop Unit) {f f' : Frame} (hf : f.Akin f') :
    (m.resume how f).Akin (m'.resume how f') := by
  cases hf with
  | same f own => exact akin_resume_same h how own
  | isolation ha hl =>
    exact { h with
      control := rfl
      own := rfl
      around := ha
      state := { h.state with locals := hl, positions := rfl } }

/-- Two renderings stay side by side, as long as nothing tells nil from nothing. -/
theorem akin_step (ho : engine.Own) (hl : m.around.strict = false) (h : m.Akin m')
    (hq : ¬ m.Tells) {next : Machine} (hs : m.step engine = some next) :
    ∃ next', m'.step engine = some next' ∧ next.Akin next' := by
  have hown := h.own
  unfold step at hs ⊢
  rw [← h.control]
  split at hs
  case h_1 => cases hs; exact ⟨_, rfl, h.goOn _ rfl⟩
  case h_2 n rest _ =>
    cases hs
    exact ⟨_, rfl, { h with
      control := rfl
      own := rfl
      stack := .cons (.same _ rfl) h.stack
      state := { h.state with line := rfl } }⟩
  case h_3 n hc => cases hs; exact ⟨_, rfl, akin_node ho hl h fun ht => hq ⟨n, hc, ht⟩⟩
  case h_4 t _ => cases hs; exact ⟨_, rfl, akin_enter h t⟩
  case h_5 hc => rw [hc] at hown; cases hown
  case h_6 how _ =>
    have hst := h.stack
    generalize hx : m.stack = stack at hst hs
    generalize hy : m'.stack = stack' at hst
    cases hst with
    | nil => cases hs
    | cons hf hrest =>
      cases hs
      exact ⟨_, rfl, akin_resume (h.withStack hrest) how hf⟩

/-! ## Runs to the end -/

variable {env : Environment} {t : Template} {data : Bindings} {n : String}

/-- Where one rendering comes, the other comes to the same point. -/
theorem akin_run (ho : env.engine.Own) (hl : env.strict = false) {a : Machine}
    (ha : (start env t data).Akin a)
    (hq : ∀ m, Steps env.engine (start env t data) m → ¬ m.Tells)
    (hs : Steps env.engine (start env t data) m) :
    ∃ m', Steps env.engine a m' ∧ m.Akin m' := by
  induction hs with
  | refl => exact ⟨a, .refl, ha⟩
  | @tail m₁ m₂ hs₁ hs₂ ih =>
    obtain ⟨m₁', hs₁', h⟩ := ih
    have hg : m₁.Grounded env :=
      grounded_run (Relation.ReflTransGen.mono (fun _ _ h => ⟨env.engine, h⟩) _ _ hs₁)
    obtain ⟨m₂', hs₂', h'⟩ := akin_step ho (hg.around.2.trans hl) h (hq m₁ hs₁) hs₂
    exact ⟨m₂', hs₁'.tail hs₂', h'⟩

theorem Akin.outcome_eq (h : m.Akin m') : m.outcome env = m'.outcome env := by
  have hst := h.stack
  unfold outcome
  rw [← h.control, ← h.place, ← h.state.line, ← h.state.output, ← h.state.shelf]
  generalize m.stack = stack at hst
  generalize m'.stack = stack' at hst
  cases hst with
  | nil => rfl
  | cons _ _ => cases m.control <;> rfl

theorem step_of_outcome {r : Except Error String × Environment} (h : m.outcome env = some r)
    (engine : Engine) : m.step engine = none := by
  unfold outcome at h
  split at h
  · rename_i how hc hs
    unfold step
    rw [hc, hs]
  · cases h

/-- There is one point at which a rendering has an outcome. -/
theorem eq_of_outcome {a : Machine} {r r' : Except Error String × Environment}
    (hs : Steps env.engine a m) (hr : m.outcome env = some r) (hs' : Steps env.engine a m')
    (hr' : m'.outcome env = some r') : m = m' := by
  have hu : Relator.RightUnique fun x y : Machine => x.step env.engine = some y :=
    fun x y z hy hz => Option.some.inj (hy.symm.trans hz)
  have stays {x y : Machine} {r : Except Error String × Environment}
      (hx : x.outcome env = some r) (h : Steps env.engine x y) : x = y := by
    rcases h.cases_head with rfl | ⟨z, hz, -⟩
    · rfl
    · cases (step_of_outcome hx env.engine).symm.trans hz
  rcases Relation.ReflTransGen.total_of_right_unique hu hs hs' with h | h
  · exact stays hr h
  · exact (stays hr' h).symm

theorem loopBoundNamed_set_nil (h : data.get? n = none) :
    Value.loopBoundNamed (data.set n .nil) = Value.loopBoundNamed data := by
  induction data with
  | nil => rfl
  | cons entry rest ih =>
    obtain ⟨name, v⟩ := entry
    unfold Bindings.get? at h
    split at h
    · cases h
    · rename_i hn
      rw [Bindings.set, if_neg hn, Value.loopBoundNamed, Value.loopBoundNamed, ih h]

/-- A rendering begins alike with a name that is bound to nil and without it. -/
theorem akin_start (hd : data.get? n = none) (hg : env.globals.get? n = none) :
    (start env t data).Akin (start env t (data.set n .nil)) where
  control := rfl
  own := rfl
  stack := .nil
  around := by
    refine ⟨rfl, fun name => ?_, .nil, rfl⟩
    change (((data.get? name).or (env.globals.get? name)).getD _).Akin
      ((((data.set n .nil).get? name).or (env.globals.get? name)).getD _)
    by_cases hn : name = n
    · subst hn
      rw [hd, hg, Bindings.get?_set_self]
      exact Value.akin_nil.symm
    · rw [Bindings.get?_set_of_ne hn]
      exact .refl _
  place := rfl
  state := by
    refine ⟨rfl, .refl [], rfl, ?_, rfl⟩
    change Positions.outside (max _ (Value.loopBoundNamed data)) =
      Positions.outside (max _ (Value.loopBoundNamed (data.set n .nil)))
    rw [loopBoundNamed_set_nil hd]
    rfl

end Machine

/-- An environment to which the host has added nothing has the filters and tags of the language. -/
theorem Environment.own_create (now : DateTime) (loader : Option Loader) (cacheSize : Int) :
    (create now loader cacheSize).engine.Own where
  filters name f h := by
    obtain ⟨before, behind, hl, -⟩ := List.lookup_eq_some_iff.1 h
    refine ⟨now, ?_⟩
    rw [show languageFilters now = before ++ (name, f) :: behind from hl]
    exact List.mem_append_right before List.mem_cons_self
  tags _ := rfl

/-- A lenient rendering with the filters and tags of the language does the same whether a name is
bound to nil or not at all, if the data and the globals do not bind it and nothing that the
rendering comes to tells nil from nothing. -/
theorem Environment.nil_like_absent {env : Environment} (hl : env.strict = false)
    (ho : env.engine.Own) {t : Template} {data : Bindings} {n : String}
    (hd : data.get? n = none) (hg : env.globals.get? n = none)
    (hq : ∀ m, Machine.Steps env.engine (Machine.start env t data) m → ¬ m.Tells) :
    env.render t (data.set n .nil) = env.render t data := by
  obtain ⟨m, hs, hm⟩ := Machine.steps_render env t data
  obtain ⟨m', hs', h⟩ := Machine.akin_run ho hl (Machine.akin_start hd hg) hq hs
  obtain ⟨m'', hs'', hm''⟩ := Machine.steps_render env t (data.set n .nil)
  rw [h.outcome_eq] at hm
  cases Machine.eq_of_outcome hs' hm hs'' hm''
  exact Option.some.inj (hm''.symm.trans hm)

/-- Whether a node is begun at present that asks for values. -/
def Machine.asks (m : Machine) : Bool :=
  match m.control with
  | .node n => !(n.exprs.isEmpty && n.calls.isEmpty)
  | _ => false

theorem Machine.not_tells_of_asks {m : Machine} (h : m.asks = false) : ¬ m.Tells := by
  rintro ⟨n, hc, ht⟩
  simp only [asks, hc, Bool.not_eq_false', Bool.and_eq_true, List.isEmpty_iff] at h
  rcases ht with ⟨e, he, -⟩ | ⟨call, hcall, -⟩
  · rw [h.1] at he
    cases he
  · rw [h.2] at hcall
    cases hcall

/-- A template that asks whether a name is nil. -/
def Environment.nilTest : Template where
  source := "{% if n == nil %}x{% endif %}"
  name := none
  filename := none
  nodes := [.conditional ⟨3, 1, 3⟩ false
    (.compare ⟨8, 1, 8⟩ (.name ⟨6, 1, 6⟩ "n") .equal (.const ⟨11, 1, 11⟩ .nil))
    [.text ⟨17, 1, 17⟩ "x"] [] []]

theorem Environment.nil_like_absent_test :
    ((create (Filter.midnight Date.first) none 0).render nilTest [("n", .nil)]).1 = .ok "x" := by
  have hq : ∀ m, Machine.Steps (create (Filter.midnight Date.first) none 0).engine
      (Machine.start (create (Filter.midnight Date.first) none 0) nilTest []) m → ¬ m.Tells := by
    refine Machine.forall_run (fun _ h => h) rfl (Machine.not_tells_of_asks rfl) ?_
    refine Machine.forall_run (fun _ h => h) rfl ?_ ?_
    · rintro ⟨_, hc, ht⟩
      cases hc
      simp [Node.Tells, Node.exprs, Node.calls, Expr.Tells] at ht
    iterate 6 refine Machine.forall_run (fun _ h => h) rfl (Machine.not_tells_of_asks rfl) ?_
    intro m hm
    rcases hm.cases_head with rfl | ⟨m', hm, -⟩
    · exact Machine.not_tells_of_asks rfl
    · cases hm
  have h : (create (Filter.midnight Date.first) none 0).render nilTest
        (Bindings.set "n" .nil []) =
      (create (Filter.midnight Date.first) none 0).render nilTest [] :=
    nil_like_absent rfl (own_create _ _ _) rfl rfl hq
  exact congrArg Prod.fst h |>.trans rfl

/-- A template that takes its items apart by a property that may have no name. -/
def Environment.nilProperty : Template where
  source := "{{ a | uniq: n | size }}"
  name := none
  filename := none
  nodes := [.output ⟨0, 1, 0⟩ (some (.name ⟨3, 1, 3⟩ "a"))
    [⟨⟨7, 1, 7⟩, "uniq", [.name ⟨13, 1, 13⟩ "n"], []⟩, ⟨⟨17, 1, 17⟩, "size", [], []⟩] false false]

theorem Environment.nil_not_always_like_absent :
    ¬ ∀ (env : Environment) (t : Template) (data : Bindings) (n : String),
      env.strict = false → env.engine.Own → data.get? n = none → env.globals.get? n = none →
        (env.render t (data.set n .nil)).1.toOption = (env.render t data).1.toOption := by
  intro h
  have h := h (create (Filter.midnight Date.first) none 0) nilProperty
    [("a", .list [.int 1, .int 2])] "n" rfl (own_create _ _ _) rfl rfl
  have hn : ((create (Filter.midnight Date.first) none 0).render nilProperty
    [("a", .list [.int 1, .int 2]), ("n", .nil)]).1 = .ok "2" := by rfl
  have hu : ((create (Filter.midnight Date.first) none 0).render nilProperty
    [("a", .list [.int 1, .int 2])]).1 = .ok "1" := by rfl
  change (Environment.render _ _ [("a", .list [.int 1, .int 2]), ("n", .nil)]).1.toOption = _ at h
  rw [hn, hu] at h
  exact absurd (Option.some.inj h) (by decide)

end Liquid
