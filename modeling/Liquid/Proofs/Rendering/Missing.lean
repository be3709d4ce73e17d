import Liquid.Proofs.Rendering.Isolation
import Liquid.Proofs.Rendering.Strict

/-!
# Names that mean nothing

In a strict rendering it is an error to ask for a name that means nothing.  A name means nothing if
it is bound nowhere, and also if it is bound to nothing: the value at the end of a path that leads
nowhere may be assigned, given to a template or visited by a loop, and what it is bound to does not
tell the one name from the other.

**Order.** An expression asks for its names from the left, and goes on as long as what it has asked
for has values.  The right side of a connective is asked only where the left side does not decide.

* `Expr.misses_eval_iff`: an expression fails in this way if and only if it asks for such a name.
* `Machine.grounded_run`: the surroundings of a rendering are as strict as its environment, in
  isolation and in every template.
* `Machine.undefined_iff_missing`: both at every point of a rendering.
-/
namespace Liquid

/-- A name that is bound nowhere, or whose innermost binding is to nothing. -/
def Scope.Missing (s : Scope) (name : String) : Prop :=
  ∀ v, s.lookup? name = some v → v = .undefined

theorem Value.now_eq_undefined {positions : Positions} {v : Value} :
    v.now positions = .undefined ↔ v = .undefined := by
  cases v <;> simp [now]

theorem View.lookup_eq_undefined {view : View} {name : String} :
    view.lookup name = .undefined ↔ view.scope.Missing name := by
  unfold View.lookup Scope.lookup Scope.Missing
  rw [Value.now_eq_undefined]
  cases view.scope.lookup? name <;> simp

/-! ## Failures -/

variable {α β : Type}

theorem not_misses_pure (x : α) (err : Error) : ¬ Misses (pure x) err := by
  intro h
  cases h.1

theorem not_misses_orFault (r : Except Fault α) (err : Error) : ¬ Misses (orFault r) err := by
  intro h
  obtain ⟨hr, e, name, meant, hf, -⟩ := h
  cases r with
  | ok x => cases hr
  | error f =>
    cases hr
    cases hf

theorem misses_bind_iff {r : Except Error α} {f : α → Except Error β} {err : Error} :
    Misses (r >>= f) err ↔ Misses r err ∨ ∃ x, r = .ok x ∧ Misses (f x) err := by
  cases r with
  | error e => simp [Misses, bind, Except.bind]
  | ok x => simp [Misses, bind, Except.bind]

/-- A test of values fails with a fault if it fails. -/
theorem not_misses_test (r : Except Fault Bool) (err : Error) :
    ¬ Misses (do return Value.bool (← orFault r)) err := by
  intro h
  rcases misses_bind_iff.1 h with h | ⟨v, -, h⟩
  · exact not_misses_orFault _ _ h
  · exact not_misses_pure _ _ h

namespace Expr

/-! ## What an expression asks for -/

/-- An expression that evaluates two others, one after the other. -/
inductive Both : Expr → Expr → Expr → Prop where
  | index (pos : Position) (a b : Expr) : Both (.index pos a b) a b
  | range (pos : Position) (a b : Expr) : Both (.range pos a b) a b
  | compare (pos : Position) (a : Expr) (sign : Sign) (b : Expr) : Both (.compare pos a sign b) a b
  | contains (pos : Position) (a b : Expr) : Both (.contains pos a b) a b

/-- Whether a connective goes on to its right side. -/
def goesOn : Connective → Bool → Bool
  | .and, left => left
  | .or, left => !left

/-- The evaluation of an expression comes to a name. -/
inductive Asks (view : View) (strict : Bool) : Expr → Position → String → Prop where
  | name (pos : Position) (n : String) : Asks view strict (.name pos n) pos n
  | property {p e x pos n} : Asks view strict e pos n → Asks view strict (.property p e x) pos n
  | first {e a b pos n} : Both e a b → Asks view strict a pos n → Asks view strict e pos n
  | second {e a b v pos n} :
    Both e a b → a.eval view strict = .ok v → Asks view strict b pos n → Asks view strict e pos n
  | left {p a word b pos n} :
    Asks view strict a pos n → Asks view strict (.connect p a word b) pos n
  | right {p a word b v pos n} :
    a.eval view strict = .ok v → goesOn word v.isTruthy = true → Asks view strict b pos n →
    Asks view strict (.connect p a word b) pos n

section

variable {view : View} {strict : Bool} {e a b : Expr} {err : Error}

/-- The expression asks for a name that must mean something and does not, and that is the error. -/
def Lacks (view : View) (strict : Bool) (e : Expr) (err : Error) : Prop :=
  ∃ pos n, e.Asks view strict pos n ∧ strict = true ∧ view.scope.Missing n ∧
    err = undefinedName view n pos.line

theorem misses_evalName_iff {pos : Position} {n : String} :
    Misses (evalName view strict pos n) err ↔
      strict = true ∧ view.scope.Missing n ∧ err = undefinedName view n pos.line := by
  rw [← View.lookup_eq_undefined]
  unfold evalName
  split
  · rename_i hv
    cases strict with
    | false =>
      refine iff_of_false (not_misses_pure _ _) ?_
      simp
    | true =>
      refine ⟨fun h => ⟨rfl, hv, (Except.error.inj h.1).symm⟩, ?_⟩
      rintro ⟨-, -, rfl⟩
      exact ⟨rfl, _, _, _, rfl, rfl⟩
  · rename_i hv
    exact iff_of_false (not_misses_pure _ _) fun h => hv h.2.1

theorem eval_both (h : Both e a b) (view : View) (strict : Bool) :
    ∃ f : Value → Value → Except Error Value, (∀ x y err, ¬ Misses (f x y) err) ∧
      e.eval view strict = (do f (← a.eval view strict) (← b.eval view strict)) := by
  cases h with
  | index pos =>
    exact ⟨fun v k => orFault (v.segment k.asPosition), fun v k => not_misses_orFault _, rfl⟩
  | range pos =>
    exact ⟨fun x y => pure (.range (x.toInt 0) (y.toInt 0 + 1)), fun x y => not_misses_pure _, rfl⟩
  | compare pos a sign =>
    exact ⟨fun x y => do return .bool (← orFault (compareValues x sign y)),
      fun x y => not_misses_test _, rfl⟩
  | contains pos =>
    exact ⟨fun x y => do return .bool (← orFault (x.contains y)), fun x y => not_misses_test _, rfl⟩

theorem eval_connect (p : Position) (a : Expr) (word : Connective) (b : Expr) :
    (connect p a word b).eval view strict = (do
      let v ← a.eval view strict
      if goesOn word v.isTruthy then return .bool (← b.eval view strict).isTruthy
      else return .bool v.isTruthy) := by
  rw [eval]
  congr 1
  funext v
  cases word <;> cases v.isTruthy <;> rfl

theorem misses_both_iff (h : Both e a b) :
    Misses (e.eval view strict) err ↔ Misses (a.eval view strict) err ∨
      ∃ v, a.eval view strict = .ok v ∧ Misses (b.eval view strict) err := by
  obtain ⟨f, hf, he⟩ := eval_both h view strict
  simp only [he, misses_bind_iff, hf, and_false, exists_false, or_false]

theorem lacks_both_iff (h : Both e a b) :
    e.Lacks view strict err ↔ a.Lacks view strict err ∨
      ∃ v, a.eval view strict = .ok v ∧ b.Lacks view strict err := by
  constructor
  · rintro ⟨pos, n, hasks, hn⟩
    cases hasks with
    | first h' ha =>
      cases h <;> cases h' <;> exact .inl ⟨pos, n, ha, hn⟩
    | second h' hv hb =>
      cases h <;> cases h' <;> exact .inr ⟨_, hv, pos, n, hb, hn⟩
    | name | property _ | left _ | right _ _ _ => cases h
  · rintro (⟨pos, n, ha, hn⟩ | ⟨v, hv, pos, n, hb, hn⟩)
    · exact ⟨pos, n, .first h ha, hn⟩
    · exact ⟨pos, n, .second h hv hb, hn⟩

theorem misses_connect_iff {p : Position} {word : Connective} :
    Misses ((connect p a word b).eval view strict) err ↔ Misses (a.eval view strict) err ∨
      ∃ v, a.eval view strict = .ok v ∧ goesOn word v.isTruthy = true ∧
        Misses (b.eval view strict) err := by
  rw [eval_connect, misses_bind_iff]
  refine or_congr_right (exists_congr fun v => and_congr_right fun _ => ?_)
  cases goesOn word v.isTruthy with
  | false =>
    rw [if_neg Bool.false_ne_true]
    simp [not_misses_pure]
  | true =>
    rw [if_pos rfl, misses_bind_iff]
    simp [not_misses_pure]

theorem lacks_connect_iff {p : Position} {word : Connective} :
    (connect p a word b).Lacks view strict err ↔ a.Lacks view strict err ∨
      ∃ v, a.eval view strict = .ok v ∧ goesOn word v.isTruthy = true ∧
        b.Lacks view strict err := by
  constructor
  · rintro ⟨pos, n, hasks, hn⟩
    cases hasks with
    | first h _ | second h _ _ => cases h
    | left ha => exact .inl ⟨pos, n, ha, hn⟩
    | right hv hw hb => exact .inr ⟨_, hv, hw, pos, n, hb, hn⟩
  · rintro (⟨pos, n, ha, hn⟩ | ⟨v, hv, hw, pos, n, hb, hn⟩)
    · exact ⟨pos, n, .left ha, hn⟩
    · exact ⟨pos, n, .right hv hw hb, hn⟩

theorem lacks_property_iff {p : Position} {x : String} :
    (property p e x).Lacks view strict err ↔ e.Lacks view strict err := by
  constructor
  · rintro ⟨pos, n, hasks, hn⟩
    cases hasks with
    | first h _ | second h _ _ => cases h
    | property he => exact ⟨pos, n, he, hn⟩
  · rintro ⟨pos, n, he, hn⟩
    exact ⟨pos, n, .property he, hn⟩

theorem lacks_name_iff {pos : Position} {n : String} :
    (name pos n).Lacks view strict err ↔
      strict = true ∧ view.scope.Missing n ∧ err = undefinedName view n pos.line := by
  constructor
  · rintro ⟨pos, n, hasks, hn⟩
    cases hasks with
    | first h _ | second h _ _ => cases h
    | name => exact hn
  · exact fun hn => ⟨pos, n, .name pos n, hn⟩

/-- An expression fails since a name means nothing if and only if it asks for such a name. -/
theorem misses_eval_iff (view : View) (strict : Bool) (e : Expr) (err : Error) :
    Misses (e.eval view strict) err ↔ e.Lacks view strict err := by
  induction e with
  | const pos c =>
    refine iff_of_false (not_misses_pure _ _) ?_
    rintro ⟨pos, n, hasks, -⟩
    cases hasks with
    | first h _ | second h _ _ => cases h
  | name pos n => rw [eval, misses_evalName_iff, lacks_name_iff]
  | property p e x ih =>
    rw [eval, misses_bind_iff, lacks_property_iff, ← ih]
    simp [not_misses_orFault]
  | index p a b iha ihb =>
    rw [misses_both_iff (.index p a b), lacks_both_iff (.index p a b), iha, ihb]
  | range p a b iha ihb =>
    rw [misses_both_iff (.range p a b), lacks_both_iff (.range p a b), iha, ihb]
  | compare p a sign b iha ihb =>
    rw [misses_both_iff (.compare p a sign b), lacks_both_iff (.compare p a sign b), iha, ihb]
  | contains p a b iha ihb =>
    rw [misses_both_iff (.contains p a b), lacks_both_iff (.contains p a b), iha, ihb]
  | connect p a word b iha ihb => rw [misses_connect_iff, lacks_connect_iff, iha, ihb]

end

end Expr

/-! ## Strictness of a rendering -/

namespace Machine

/-- The surroundings that isolations have put aside have the globals of an environment and are as
strict. -/
def Aside (env : Environment) : List Frame → Prop
  | [] => True
  | .isolation around _ _ :: stack => env.Holds around ∧ Aside env stack
  | _ :: stack => Aside env stack

/-- A machine with the globals of an environment that is as strict, at present and after every
isolation that has begun. -/
structure Grounded (env : Environment) (m : Machine) : Prop where
  around : env.Holds m.around
  aside : Aside env m.stack

variable {env : Environment} {engine : Engine} {m m' : Machine}

theorem grounded_perform {run : Run α} {next : Machine → α → Machine} (h : m.Grounded env)
    (hn : ∀ x st, (next { m with state := st } x).Grounded env) :
    (m.perform run next).Grounded env := by
  unfold perform
  rcases run m.state with ⟨stop | x, st⟩
  · exact ⟨h.around, h.aside⟩
  · exact hn x st

theorem grounded_done (run : Run Unit) (h : m.Grounded env) :
    (m.perform run fun m () => m.done).Grounded env :=
  grounded_perform h fun _ _ => ⟨h.around, h.aside⟩

theorem grounded_node (h : m.Grounded env) (n : Node) : (m.node engine n).Grounded env := by
  cases n with
  | text pos text | raw pos text => exact grounded_done (Run.write text) h
  | assign pos name e filters => exact grounded_done _ h
  | comment pos text | signal pos signal | capture pos name body => exact ⟨h.around, h.aside⟩
  | output pos e filters left right =>
    cases e with
    | none => exact ⟨h.around, h.aside⟩
    | some e => exact grounded_done _ h
  | conditional pos negated test body branches otherwise =>
    exact grounded_perform h fun _ _ => ⟨h.around, h.aside⟩
  | choice pos subject whens otherwise => exact grounded_perform h fun _ _ => ⟨h.around, h.aside⟩
  | loop pos head body otherwise =>
    simp only [node]
    refine grounded_perform h fun items st => ?_
    cases items with
    | nil => exact ⟨h.around, h.aside⟩
    | cons v rest =>
      exact grounded_perform ⟨h.around, h.aside⟩ fun _ _ => ⟨h.around, h.aside⟩
  | «include» pos what each =>
    simp only [node]
    refine grounded_perform h fun t st => ?_
    cases each with
    | none => exact grounded_perform ⟨h.around, h.aside⟩ fun _ _ => ⟨h.around, h.aside⟩
    | some e => exact grounded_perform ⟨h.around, h.aside⟩ fun _ _ => ⟨h.around, h.aside⟩
  | render pos what =>
    simp only [node]
    refine grounded_perform h fun t st => ?_
    exact grounded_perform ⟨h.around, h.aside⟩ fun _ _ => ⟨h.around, h.around, h.aside⟩
  | tag pos name arguments body markup =>
    simp only [node]
    cases engine.tags.get? name with
    | none => exact grounded_done _ h
    | some tag => exact grounded_perform h fun _ _ => ⟨h.around, h.aside⟩

theorem grounded_program (h : m.Grounded env) (tag : String) (body : List Node) (p : Program)
    (pending : Option Signal) : (m.program engine tag body p pending).Grounded env := by
  cases p with
  | done v => cases pending <;> exact ⟨h.around, h.aside⟩
  | fail e | look next | assign name v next => exact ⟨h.around, h.aside⟩
  | body where_ next =>
    cases pending with
    | some signal => exact ⟨h.around, h.aside⟩
    | none =>
      cases where_ with
      | here | inside frame => exact ⟨h.around, h.aside⟩
      | isolated data => exact ⟨h.around, h.around, h.aside⟩

theorem grounded_resume {f : Frame} (h : env.Holds m.around) (ha : Aside env (f :: m.stack))
    (how : Except Stop Unit) : (m.resume how f).Grounded env := by
  cases f with
  | behind nodes | captured name output => cases how <;> exact ⟨h, ha⟩
  | block | template place line => exact ⟨h, ha⟩
  | isolation around locals positions => exact ⟨ha.1, ha.2⟩
  | visits l target body position items =>
    rcases how with (_ | _) | _
    case error.signal signal =>
      cases signal with
      | leave => exact ⟨h, ha⟩
      | next =>
        cases items with
        | nil => exact ⟨h, ha⟩
        | cons v rest => exact ⟨h.bind target v, ha⟩
    case error.error e => exact ⟨h, ha⟩
    case ok =>
      cases items with
      | nil => exact ⟨h, ha⟩
      | cons v rest => exact ⟨h.bind target v, ha⟩
  | items l called t position items =>
    cases how with
    | error stop => exact ⟨h, ha⟩
    | ok =>
      cases items with
      | nil => exact ⟨h, ha⟩
      | cons v rest => exact ⟨h.bind called v, ha⟩
  | host tag body next output => rcases how with (_ | _) | _ <;> exact ⟨h, ha⟩

theorem grounded_step (h : m.Grounded env) (hs : m.step engine = some m') : m'.Grounded env := by
  unfold step at hs
  split at hs
  case h_1 => cases hs; exact ⟨h.around, h.aside⟩
  case h_2 => cases hs; exact ⟨h.around, h.aside⟩
  case h_3 n _ => cases hs; exact grounded_node h n
  case h_4 t _ => cases hs; exact ⟨h.around, h.aside⟩
  case h_5 tag body p pending _ => cases hs; exact grounded_program h tag body p pending
  case h_6 how _ =>
    split at hs
    · cases hs
    · rename_i f rest hst
      cases hs
      have ha : Aside env (f :: rest) := hst ▸ h.aside
      exact grounded_resume (m := { m with stack := rest }) h.around ha how

/-- No step of a rendering changes the globals, or whether names must mean something. -/
theorem grounded_run {t : Template} {data : Bindings}
    (hs : Relation.ReflTransGen Next (start env t data) m) : m.Grounded env := by
  induction hs with
  | refl => exact ⟨⟨rfl, rfl⟩, trivial⟩
  | tail _ hn ih =>
    obtain ⟨engine, hn⟩ := hn
    exact grounded_step ih hn

/-! ## Names in a rendering -/

/-- At every point of a strict rendering, whatever the host answers on the way, an expression
without a default fails since a name means nothing if and only if it asks for a name that no frame
binds, or whose innermost binding is to nothing; the error is about this name and its line.  An
expression with a default does not fail in this way, and a name that is bound to anything else has
its value. -/
theorem undefined_iff_missing (hs : env.strict = true) {t : Template} {data : Bindings}
    (hm : Relation.ReflTransGen Next (start env t data) m) :
    (∀ (e : Expr) (calls : List FilterCall) (err : Error),
      e.eval m.view (m.around.strict && !FilterCall.startsWithDefault calls) = .error err ∧
          err.Undefined ↔
        FilterCall.startsWithDefault calls = false ∧ ∃ pos n, e.Asks m.view true pos n ∧
          m.scope.Missing n ∧ err = Expr.undefinedName m.view n pos.line) ∧
    ∀ pos n v, m.scope.lookup? n = some v → v ≠ .undefined →
      (Expr.name pos n).eval m.view m.around.strict = .ok (v.now m.state.positions) := by
  have hstrict : m.around.strict = true := (grounded_run hm).around.2.trans hs
  rw [hstrict]
  constructor
  · intro e calls err
    refine (Expr.misses_eval_iff m.view _ e err).trans ?_
    rw [Bool.true_and]
    cases FilterCall.startsWithDefault calls with
    | false =>
      constructor
      · rintro ⟨pos, n, hasks, -, hn⟩
        exact ⟨rfl, pos, n, hasks, hn⟩
      · rintro ⟨-, pos, n, hasks, hn⟩
        exact ⟨pos, n, hasks, rfl, hn⟩
    | true =>
      constructor
      · rintro ⟨pos, n, -, hd, -⟩
        cases hd
      · rintro ⟨hd, -⟩
        cases hd
  · intro pos n v hv hne
    have hl : m.view.lookup n = v.now m.state.positions := by
      change ((m.scope.lookup? n).getD .undefined).now m.state.positions = _
      rw [hv]
      rfl
    rw [← hl]
    refine Expr.eval_name_of_ne ?_ true pos
    rw [hl]
    exact fun h => hne (Value.now_eq_undefined.1 h)

/-! ## A case -/

/-- An environment in which names must mean something, with no filters, no tags of the host and no
templates to load. -/
def strictSample : Environment where
  engine := { loader := none, filters := {}, tags := {} }
  globals := []
  strict := true
  maxDepth := 1
  shelf := { cache := { maxSize := 1, label := "" } }

/-- The template `{% assign x = user.missing %}{{ x }}`. -/
def assigningNothing : Template where
  source := "\x7b% assign x = user.missing %\x7d\x7b\x7b x \x7d\x7d"
  name := none
  filename := none
  nodes :=
    [.assign ⟨3, 1, 3⟩ "x" (.property ⟨18, 1, 18⟩ (.name ⟨14, 1, 14⟩ "user") "missing") [],
      .output ⟨29, 1, 29⟩ (some (.name ⟨32, 1, 32⟩ "x")) [] false false]

/-- Its rendering for a user of whom nothing is known. -/
def assigningStart : Machine := start strictSample assigningNothing [("user", .mapping [])]

/-- At its end a name is bound to nothing. -/
theorem steps_assigningStart :
    ∃ m, Relation.ReflTransGen Next assigningStart m ∧
      m.control = .node (.output ⟨29, 1, 29⟩ (some (.name ⟨32, 1, 32⟩ "x")) [] false false) ∧
      m.around.strict = true ∧ m.scope.lookup? "x" = some .undefined ∧
      m.scope.lookup? "user" = some (.mapping []) := by
  have next (x y : Machine) (h : x.step strictSample.engine = some y) : Next x y := ⟨_, h⟩
  exact ⟨_, .tail (.tail (.tail (.tail .refl (next _ _ rfl)) (next _ _ rfl)) (next _ _ rfl))
    (next _ _ rfl), rfl, rfl, rfl, rfl⟩

/-- What is assigned there is an error, although it is bound, and the user is none. -/
theorem undefined_iff_missing_assigned :
    ∃ m, Relation.ReflTransGen Next assigningStart m ∧ m.scope.lookup? "x" = some .undefined ∧
      (Expr.name ⟨32, 1, 32⟩ "x").eval m.view m.around.strict =
        .error (Expr.undefinedName m.view "x" 1) ∧
      (Expr.name ⟨14, 1, 14⟩ "user").eval m.view m.around.strict = .ok (.mapping []) := by
  obtain ⟨m, hm, -, -, hx, hu⟩ := steps_assigningStart
  have hs : strictSample.strict = true := rfl
  obtain ⟨hnames, hvalues⟩ := undefined_iff_missing hs hm
  refine ⟨m, hm, hx, ?_, hvalues _ "user" _ hu Value.noConfusion⟩
  have hmissing : m.scope.Missing "x" := fun v hv => Option.some.inj (hv.symm.trans hx)
  have h := (hnames (.name ⟨32, 1, 32⟩ "x") [] _).2 ⟨rfl, _, _, .name _ _, hmissing, rfl⟩
  simpa [FilterCall.startsWithDefault] using h.1

/-- So it is not true that in a strict rendering only a name that no frame binds is an error. -/
theorem not_only_unbound :
    ¬ ∀ m, Relation.ReflTransGen Next assigningStart m → ∀ pos n,
      (∃ err, (Expr.name pos n).eval m.view m.around.strict = .error err ∧ err.Undefined) ↔
        m.scope.contains n = false := by
  intro h
  obtain ⟨m, hm, -, hs, hx, -⟩ := steps_assigningStart
  have hmissing : m.view.scope.Missing "x" := fun v hv => Option.some.inj (hv.symm.trans hx)
  have he : Misses ((Expr.name ⟨32, 1, 32⟩ "x").eval m.view m.around.strict) _ :=
    Expr.misses_evalName_iff.2 ⟨hs, hmissing, rfl⟩
  have hc := (h m hm ⟨32, 1, 32⟩ "x").1 ⟨_, he⟩
  rw [Scope.contains, hx] at hc
  cases hc

end Machine

end Liquid
