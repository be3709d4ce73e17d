import Liquid.Proofs.Rendering.Outcome

/-!
# What a rendering does not depend on

Two renderings for which every name means the same do alike, wherever they are: the place and the
line show in errors only, a frame in which nothing is bound does not show, and what lies on the shelf
decides whether a template is loaded again, not which one it is.

* `toOption_evalFiltered`: a value with filters does not depend on the place.
* `toTemplate_fetch`: a template from the shelf is the one that would be loaded.
* `Run.Matches`: two runs that do alike; the lemmas after it say so of each run of a node.
-/
namespace Liquid

/-! ## Values -/

section

variable {α β ε : Type}

theorem toOption_bind (r : Except ε α) (f : α → Except ε β) :
    (r >>= f).toOption = r.toOption.bind fun x => (f x).toOption := by
  cases r <;> rfl

end

/-- Two views of the same names and the same loops. -/
def View.Alike (v w : View) : Prop := v.scope = w.scope ∧ v.positions = w.positions

/-- Two views in which every name means the same. -/
def View.Sees (v w : View) : Prop := ∀ name, v.lookup name = w.lookup name

theorem View.Alike.sees {v w : View} (h : v.Alike w) : v.Sees w := by
  intro name
  unfold View.lookup
  rw [h.1, h.2]

namespace View.Sees

variable {v w : View}

theorem toOption_eval (h : v.Sees w) (strict : Bool) (e : Expr) :
    (e.eval v strict).toOption = (e.eval w strict).toOption := by
  induction e with
  | const pos c => simp only [Expr.eval]
  | name pos n =>
    simp only [Expr.eval, Expr.evalName, h n]
    split
    · split <;> rfl
    · rfl
  | property pos e n ih => simp only [Expr.eval, toOption_bind, ih]
  | index pos e k ihe ihk => simp only [Expr.eval, toOption_bind, ihe, ihk]
  | range pos a b iha ihb => simp only [Expr.eval, toOption_bind, iha, ihb]
  | compare pos a sign b iha ihb => simp only [Expr.eval, toOption_bind, iha, ihb]
  | contains pos a b iha ihb => simp only [Expr.eval, toOption_bind, iha, ihb]
  | connect pos a word b iha ihb =>
    simp only [Expr.eval, toOption_bind, iha]
    congr 1
    funext x
    cases word <;> cases x.isTruthy <;> simp only [toOption_bind, ihb]

theorem toOption_evalAll (h : v.Sees w) (strict : Bool) (es : List Expr) :
    (Expr.evalAll v strict es).toOption = (Expr.evalAll w strict es).toOption := by
  induction es with
  | nil => rfl
  | cons e rest ih => simp only [Expr.evalAll, toOption_bind, h.toOption_eval strict e, ih]

theorem toOption_evalNamed (h : v.Sees w) (strict : Bool) (es : List (String × Expr))
    (b : Bindings) :
    (Expr.evalNamed v strict es b).toOption = (Expr.evalNamed w strict es b).toOption := by
  induction es generalizing b with
  | nil => rfl
  | cons e rest ih => simp only [Expr.evalNamed, toOption_bind, h.toOption_eval strict e.2, ih]

theorem toOption_apply (h : v.Sees w) (filters : Registry FilterFunction) (strict : Bool)
    (call : FilterCall) (x : Value) :
    (call.apply v filters strict x).toOption = (call.apply w filters strict x).toOption := by
  unfold FilterCall.apply
  cases filters.get? call.name with
  | none => rfl
  | some filter =>
    simp only [toOption_bind, h.toOption_evalAll strict, h.toOption_evalNamed strict]

theorem toOption_applyAll (h : v.Sees w) (filters : Registry FilterFunction) (strict : Bool)
    (calls : List FilterCall) (x : Value) :
    (FilterCall.applyAll v filters strict calls x).toOption =
      (FilterCall.applyAll w filters strict calls x).toOption := by
  induction calls generalizing x with
  | nil => rfl
  | cons call rest ih =>
    simp only [FilterCall.applyAll, toOption_bind, h.toOption_apply filters strict call, ih]

theorem toOption_evalFiltered (h : v.Sees w) (filters : Registry FilterFunction) (strict : Bool)
    (e : Expr) (calls : List FilterCall) :
    (e.evalFiltered v filters strict calls).toOption =
      (e.evalFiltered w filters strict calls).toOption := by
  simp only [Expr.evalFiltered, toOption_bind, h.toOption_eval, h.toOption_applyAll]

end View.Sees

/-! ## Surroundings -/

/-- Two surroundings in which every name means the same, also behind bindings that are put in front
of both. -/
structure Surroundings.Like (s s' : Surroundings) : Prop where
  globals : s.globals = s'.globals
  data : s.data = s'.data
  strict : s.strict = s'.strict
  frames (name : String) :
    s.frames.findSome? (Bindings.get? name) = s'.frames.findSome? (Bindings.get? name)

namespace Surroundings.Like

variable {s s' : Surroundings}

theorem refl (s : Surroundings) : s.Like s := ⟨rfl, rfl, rfl, fun _ => rfl⟩

theorem of_eq (h : s = s') : s.Like s' := h ▸ refl s

/-- A frame in which nothing is bound does not show. -/
theorem push_nil (s : Surroundings) : (s.push []).Like s := ⟨rfl, rfl, rfl, fun _ => rfl⟩

theorem push (h : s.Like s') (frame : Bindings) : (s.push frame).Like (s'.push frame) := by
  refine ⟨h.globals, h.data, h.strict, fun name => ?_⟩
  simp only [Surroundings.push, List.findSome?_cons, h.frames]

theorem isolated (h : s.Like s') (data : Bindings) : s.isolated data = s'.isolated data := by
  unfold Surroundings.isolated
  rw [h.globals, h.strict]

theorem lookup? (h : s.Like s') (locals : Bindings) (name : String) :
    Scope.lookup? { toSurroundings := s, locals } name =
      Scope.lookup? { toSurroundings := s', locals } name := by
  simp only [Scope.lookup?, Scope.layers, List.findSome?_append, h.frames, h.globals, h.data]

end Surroundings.Like

/-! ## Templates -/

namespace Engine

/-- Every template on the shelf is the one that the loader gives under its name. -/
def Agrees (engine : Engine) (shelf : Shelf) : Prop :=
  ∀ name t, (name, t) ∈ shelf.cache.entries → engine.load name = .ok t.toTemplate

variable {engine : Engine} {shelf : Shelf}

/-- What holds of all templates on the shelf and of those that are loaded holds of those that are
found, and then again of all on the shelf. -/
theorem forall_fetch {P : String → Loaded → Prop}
    (h : ∀ n t, (n, t) ∈ shelf.cache.entries → P n t) {name : String}
    (hl : ∀ t : Loaded, engine.load name = .ok t.toTemplate → P name t) :
    (∀ n t, (n, t) ∈ (engine.fetch name shelf).2.cache.entries → P n t) ∧
      ∀ t, (engine.fetch name shelf).1 = .ok t → P name t := by
  unfold fetch Cache.find?
  cases hp : shelf.cache.peek? name with
  | some t =>
    have ht := h name t (Cache.mem_of_peek? hp)
    refine ⟨fun n u hu => ?_, fun u hu => Except.ok.inj hu ▸ ht⟩
    rw [List.mem_append, List.mem_singleton] at hu
    rcases hu with hu | hu
    · exact h n u ((List.mem_filter.1 hu).1)
    · cases hu
      exact ht
  | none =>
    dsimp only
    cases hf : engine.load name with
    | error e => exact ⟨h, fun _ hu => nomatch hu⟩
    | ok t =>
      have ht := hl ⟨t, shelf.loads⟩ hf
      refine ⟨fun n u hu => ?_, fun u hu => Except.ok.inj hu ▸ ht⟩
      rcases Cache.mem_insert hu with hu | hu
      · cases hu
        exact ht
      · exact h n u hu

theorem agrees_fetch (h : engine.Agrees shelf) (name : String) :
    engine.Agrees (engine.fetch name shelf).2 :=
  (forall_fetch h fun _ ht => ht).1

theorem toTemplate_fetch (h : engine.Agrees shelf) (name : String) :
    (engine.fetch name shelf).1.map Loaded.toTemplate = engine.load name := by
  unfold fetch Cache.find?
  cases hp : shelf.cache.peek? name with
  | some t => exact (h name t (Cache.mem_of_peek? hp)).symm
  | none =>
    dsimp only
    cases hl : engine.load name <;> rfl

end Engine

/-! ## Runs -/

/-- Two ways to end early: with the same signal, or both with an error. -/
inductive Stop.Alike : Stop → Stop → Prop where
  | signal (sg : Signal) : Stop.Alike (.signal sg) (.signal sg)
  | error (e f : Error) : Stop.Alike (.error e) (.error f)

/-- Two states that differ in what lies on the shelf, and in a text that stands before the output of
the first. -/
structure State.Alike (engine : Engine) (before : String) (st su : State) : Prop where
  output : st.output = before ++ su.output
  locals : st.locals = su.locals
  line : st.line = su.line
  positions : st.positions = su.positions
  shelf : engine.Agrees st.shelf
  other : engine.Agrees su.shelf

namespace Run

variable {α β : Type} {engine : Engine} {rel : α → α → Prop} {rel' : β → β → Prop}

/-- Two results of runs that did alike. -/
inductive Results (engine : Engine) (before : String) (rel : α → α → Prop) :
    Except Stop α × State → Except Stop α × State → Prop where
  | ok {x y st su} :
    rel x y → st.Alike engine before su → Results engine before rel (.ok x, st) (.ok y, su)
  | error {stop stop' st su} :
    stop.Alike stop' → st.Alike engine before su →
    Results engine before rel (.error stop, st) (.error stop', su)

/-- Two runs that do alike from states that are alike. -/
def Matches (engine : Engine) (rel : α → α → Prop) (run run' : Run α) : Prop :=
  ∀ before st su, st.Alike engine before su →
    Results engine before rel (run st) (run' su)

theorem matches_bind {run run' : Run α} {f f' : α → Run β} (h : Matches engine rel run run')
    (hf : ∀ x y, rel x y → Matches engine rel' (f x) (f' y)) :
    Matches engine rel' (run >>= f) (run' >>= f') := by
  intro before st su hs
  rw [bind_apply, bind_apply]
  have hr := h before st su hs
  generalize run st = r at hr
  generalize run' su = r' at hr
  cases hr with
  | ok hx hs => exact hf _ _ hx before _ _ hs
  | error he hs => exact .error he hs

theorem matches_pure {x y : α} (h : rel x y) : Matches engine rel (pure x) (pure y) :=
  fun _ _ _ hs => .ok h hs

theorem matches_ofExcept {r r' : Except Error α} (h : r.toOption = r'.toOption) :
    Matches engine Eq (ofExcept r) (ofExcept r') := by
  intro before st su hs
  rw [ofExcept_apply, ofExcept_apply]
  cases r <;> cases r' <;> cases h
  · exact .error (.error _ _) hs
  · exact .ok rfl hs

theorem matches_look {s s' : Setting} (h : s.around.Like s'.around) :
    Matches engine View.Sees (look s) (look s') := by
  intro before st su hs
  refine .ok (fun name => ?_) hs
  simp only [View.lookup, Setting.view, Scope.lookup, hs.locals, hs.positions, h.lookup?]

theorem matches_write (text : String) : Matches engine Eq (write text) (write text) := by
  intro before st su hs
  refine .ok rfl { hs with output := ?_ }
  simp only [hs.output, String.append_assoc]

theorem matches_assign (name : String) (v : Value) :
    Matches engine Eq (assign name v) (assign name v) := by
  intro before st su hs
  refine .ok rfl { hs with locals := ?_ }
  simp only [hs.locals]

theorem matches_moveTo (l : Loop) (position : Int) :
    Matches engine Eq (moveTo l position) (moveTo l position) := by
  intro before st su hs
  refine .ok rfl { hs with positions := ?_ }
  simp only [hs.positions]

theorem matches_beginLoop (length : Int) (parent : Option Loop) :
    Matches engine Eq (beginLoop length parent) (beginLoop length parent) := by
  intro before st su hs
  simp only [beginLoop, hs.positions]
  exact .ok rfl { hs with positions := rfl }

variable {s s' : Setting}

theorem matches_eval (h : s.around.Like s'.around) (e : Expr) :
    Matches engine Eq (eval s e) (eval s' e) :=
  matches_bind (matches_look h) fun _ _ hv => by
    rw [h.strict]
    exact matches_ofExcept (hv.toOption_eval _ e)

theorem matches_evalFiltered (h : s.around.Like s'.around) (he : s.engine = s'.engine) (e : Expr)
    (calls : List FilterCall) : Matches engine Eq (evalFiltered s e calls) (evalFiltered s' e calls) :=
  matches_bind (matches_look h) fun _ _ hv => by
    rw [h.strict, he]
    exact matches_ofExcept (hv.toOption_evalFiltered _ _ e calls)

theorem matches_evalItems (h : s.around.Like s'.around) (e : Expr) :
    Matches engine Eq (evalItems s e) (evalItems s' e) :=
  matches_bind (matches_eval h e) fun _ _ hv => matches_ofExcept (by rw [hv])

theorem matches_evalCount (h : s.around.Like s'.around) (e : Option Expr) :
    Matches engine Eq (evalCount s e) (evalCount s' e) := by
  cases e with
  | none => exact matches_pure rfl
  | some e => exact matches_bind (matches_eval h e) fun _ _ hv => matches_pure (by rw [hv])

theorem matches_loopItems (h : s.around.Like s'.around) (head : LoopHead) :
    Matches engine Eq (loopItems s head) (loopItems s' head) := by
  refine matches_bind (matches_evalItems h _) ?_
  rintro items _ rfl
  refine matches_bind (matches_evalCount h _) ?_
  rintro offset _ rfl
  refine matches_bind (matches_evalCount h _) ?_
  rintro limit _ rfl
  exact matches_pure rfl

theorem matches_evalBindings (h : s.around.Like s'.around) (bindings : List (String × Expr)) :
    Matches engine Eq (evalBindings s bindings) (evalBindings s' bindings) :=
  matches_bind (matches_look h) fun _ _ hv => by
    rw [h.strict]
    exact matches_ofExcept (hv.toOption_evalNamed _ bindings [])

theorem matches_evalArguments (h : s.around.Like s'.around) (arguments : List Expr) :
    Matches engine Eq (evalArguments s arguments) (evalArguments s' arguments) :=
  matches_bind (matches_look h) fun _ _ hv => by
    rw [h.strict]
    exact matches_ofExcept (hv.toOption_evalAll _ arguments)

theorem matches_evalGiven (h : s.around.Like s'.around) (what : Inclusion) {t t' : Loaded}
    (ht : t.toTemplate = t'.toTemplate) :
    Matches engine Eq (evalGiven s what t) (evalGiven s' what t') := by
  refine matches_bind (matches_evalBindings h _) ?_
  rintro bindings _ rfl
  cases what.given with
  | none => exact matches_pure rfl
  | some e =>
    refine matches_bind (matches_eval h e) ?_
    rintro v _ rfl
    exact matches_pure (by simp only [aliasIn, ht])

theorem matches_beginItems (h : s.around.Like s'.around) (what : Inclusion) (e : Expr) :
    Matches engine Eq (beginItems s what e) (beginItems s' what e) := by
  refine matches_bind (matches_evalBindings h _) ?_
  rintro bindings _ rfl
  refine matches_bind (matches_evalItems h e) ?_
  rintro items _ rfl
  refine matches_bind (matches_beginLoop _ _) ?_
  rintro l _ rfl
  exact matches_pure rfl

theorem matches_chooseBranch (h : s.around.Like s'.around) (otherwise : List Node)
    (branches : List (Branch Node)) :
    Matches engine Eq (chooseBranch s otherwise branches) (chooseBranch s' otherwise branches) := by
  induction branches with
  | nil => exact matches_pure rfl
  | cons b rest ih =>
    refine matches_bind (matches_eval h _) ?_
    rintro v _ rfl
    split
    · exact matches_pure rfl
    · exact ih

theorem matches_chooseBody (h : s.around.Like s'.around) (negated : Bool) (test : Expr)
    (body : List Node) (branches : List (Branch Node)) (otherwise : List Node) :
    Matches engine Eq (chooseBody s negated test body branches otherwise)
      (chooseBody s' negated test body branches otherwise) := by
  refine matches_bind (matches_eval h test) ?_
  rintro v _ rfl
  split
  · exact matches_pure rfl
  · exact matches_chooseBranch h otherwise branches

theorem matches_matchesAny (h : s.around.Like s'.around) (subject : Value) (values : List Expr) :
    Matches engine Eq (matchesAny s subject values) (matchesAny s' subject values) := by
  induction values with
  | nil => exact matches_pure rfl
  | cons e rest ih =>
    refine matches_bind (matches_eval h e) ?_
    rintro v _ rfl
    refine matches_bind (matches_ofExcept rfl) ?_
    rintro b _ rfl
    cases b
    · exact ih
    · exact matches_pure rfl

theorem matches_chooseWhen (h : s.around.Like s'.around) (subject : Value) (otherwise : List Node)
    (whens : List (When Node)) :
    Matches engine Eq (chooseWhen s subject otherwise whens)
      (chooseWhen s' subject otherwise whens) := by
  induction whens with
  | nil => exact matches_pure rfl
  | cons w rest ih =>
    refine matches_bind (matches_matchesAny h subject _) ?_
    rintro b _ rfl
    cases b
    · exact ih
    · exact matches_pure rfl

/-- Two loaded templates that are the same but for their numbers. -/
def SameTemplate (t t' : Loaded) : Prop := t.toTemplate = t'.toTemplate

theorem matches_fetch (he : s.engine = engine) (he' : s'.engine = engine) (tag name : String) :
    Matches engine SameTemplate (fetch s tag name) (fetch s' tag name) := by
  intro before st su hs
  rw [fetch_apply, fetch_apply, he, he']
  have hq := (Engine.toTemplate_fetch hs.shelf name).trans (Engine.toTemplate_fetch hs.other name).symm
  have ha : State.Alike engine before { st with shelf := (engine.fetch name st.shelf).2 }
      { su with shelf := (engine.fetch name su.shelf).2 } :=
    { hs with
      shelf := Engine.agrees_fetch hs.shelf name
      other := Engine.agrees_fetch hs.other name }
  generalize (engine.fetch name st.shelf).1 = r at hq ⊢
  generalize (engine.fetch name su.shelf).1 = r' at hq ⊢
  cases r <;> cases r' <;> simp only [Except.map, reduceCtorEq, Except.ok.injEq] at hq
  · exact .error (.error _ _) ha
  · exact .ok hq ha

theorem matches_checkDepth (hl : levelsAt s.place = 0 ↔ levelsAt s'.place = 0) (name : String) :
    Matches engine Eq (checkDepth s name) (checkDepth s' name) := by
  by_cases h0 : levelsAt s.place = 0
  · intro before st su hs
    rw [checkDepth_of_zero h0, checkDepth_of_zero (hl.1 h0)]
    exact .error (.error _ _) hs
  · rw [checkDepth_of_pos h0, checkDepth_of_pos fun h => h0 (hl.2 h)]
    exact matches_pure rfl

theorem matches_find (h : s.around.Like s'.around) (he : s.engine = engine) (he' : s'.engine = engine)
    (hl : levelsAt s.place = 0 ↔ levelsAt s'.place = 0) (tag : String) (e : Expr) :
    Matches engine SameTemplate (find s tag e) (find s' tag e) := by
  refine matches_bind (matches_eval h e) ?_
  rintro v _ rfl
  exact matches_bind (matches_checkDepth hl _) fun _ _ _ => matches_fetch he he' tag _

/-- Where a name has no value, no check is made. -/
theorem results_find (h : s.around.Like s'.around) (he : s.engine = engine) (he' : s'.engine = engine)
    {e : Expr} {before : String} {st su : State} (hs : st.Alike engine before su)
    (hl : ∀ v, e.eval (s.view st) s.around.strict = .ok v →
      (levelsAt s.place = 0 ↔ levelsAt s'.place = 0)) (tag : String) :
    Results engine before SameTemplate (find s tag e st) (find s' tag e su) := by
  have hr : Results engine before Eq (eval s e st) (eval s' e su) :=
    matches_eval h e before st su hs
  rw [eval_apply, eval_apply] at hr
  cases hv : e.eval (s.view st) s.around.strict with
  | ok v => exact matches_find h he he' (hl v hv) tag e before st su hs
  | error f =>
    rw [hv] at hr
    unfold find
    rw [bind_apply, bind_apply, eval_apply, eval_apply, hv]
    cases hw : e.eval (s'.view su) s'.around.strict with
    | ok w => rw [hw] at hr; cases hr
    | error g => exact .error (.error _ _) hs

/-- A template that may be nested and that is there is found. -/
theorem find_of_load (h0 : levelsAt s.place ≠ 0) {e : Expr} {v : Value} {t : Template} {st : State}
    (hv : e.eval (s.view st) s.around.strict = .ok v) (ha : s.engine.Agrees st.shelf)
    (ht : s.engine.load v.toText = .ok t) (tag : String) :
    ∃ u shelf, find s tag e st = (.ok u, { st with shelf }) ∧ u.toTemplate = t ∧
      s.engine.Agrees shelf := by
  have hq := Engine.toTemplate_fetch ha v.toText
  rw [ht] at hq
  cases hf : (s.engine.fetch v.toText st.shelf).1 with
  | error f => rw [hf] at hq; cases hq
  | ok u =>
    rw [hf] at hq
    refine ⟨u, _, ?_, Except.ok.inj hq, Engine.agrees_fetch ha v.toText⟩
    have he : eval s e st = (.ok v, st) := by
      rw [eval_apply, hv]
      rfl
    unfold find
    rw [bind_of_ok he, checkDepth_of_pos h0]
    change fetch s tag v.toText st = _
    rw [fetch_apply, hf]
    rfl

theorem state_evalGiven (s : Setting) (what : Inclusion) (t : Loaded) (st : State) :
    (evalGiven s what t st).2 = st := by
  have hb : evalBindings s what.bindings st =
      ((Expr.evalNamed (s.view st) s.around.strict what.bindings []).mapError Stop.error, st) :=
    ofExcept_apply _ _
  unfold evalGiven
  rw [bind_apply, hb]
  cases Expr.evalNamed (s.view st) s.around.strict what.bindings [] with
  | error e => rfl
  | ok bindings =>
    dsimp only [Except.mapError]
    cases what.given with
    | none => rfl
    | some e =>
      dsimp only
      rw [bind_apply, eval_apply]
      cases e.eval (s.view st) s.around.strict <;> rfl

theorem matches_unknownTag (name : String) :
    Matches engine Eq (unknownTag s name) (unknownTag s' name) :=
  fun _ _ _ hs => .error (.error _ _) hs

end Run

end Liquid
