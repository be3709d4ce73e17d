import Liquid.Proofs.Rendering.Outcome

/-!
# Runs that only look

Most of what a node does before it renders a body is to find out something: the value of an
expression, the items of a loop, the body to go on with.  Such a run leaves the rendering as it is,
it does not see what lies on the shelf, and if it fails, it fails with an error and not with a
signal.

* `looks_bind`: looking twice is looking.
* `looks_chooseBody`, `looks_evalGiven`: the runs of the nodes.
-/
namespace Liquid

namespace Run

variable {α β : Type}

/-- A run that changes nothing, and that ends with a value or an error; which one does not depend on
the shelf. -/
def Looks (run : Run α) : Prop :=
  ∀ st : State, ∃ r : Except Error α, ∀ shelf,
    run { st with shelf } = (r.mapError Stop.error, { st with shelf })

theorem Looks.apply {run : Run α} (h : Looks run) (st : State) :
    ∃ r : Except Error α, run st = (r.mapError Stop.error, st) := by
  obtain ⟨r, hr⟩ := h st
  exact ⟨r, hr st.shelf⟩

theorem Looks.state {run : Run α} (h : Looks run) (st : State) : (run st).2 = st := by
  obtain ⟨r, hr⟩ := h.apply st
  rw [hr]

theorem Looks.not_signal {run : Run α} (h : Looks run) {st st' : State} {signal : Signal} :
    run st ≠ (.error (.signal signal), st') := by
  intro hs
  obtain ⟨r, hr⟩ := h.apply st
  rw [hr] at hs
  cases r <;> cases hs

theorem looks_ofExcept (r : Except Error α) : Looks (ofExcept r) :=
  fun _ => ⟨r, fun _ => ofExcept_apply r _⟩

theorem looks_pure (x : α) : Looks (pure x : Run α) := fun _ => ⟨.ok x, fun _ => rfl⟩

theorem looks_look (s : Setting) : Looks (look s) :=
  fun st => ⟨.ok (s.view st), fun _ => rfl⟩

theorem looks_bind {run : Run α} {f : α → Run β} (h : Looks run) (hf : ∀ x, Looks (f x)) :
    Looks (run >>= f) := by
  intro st
  obtain ⟨r, hr⟩ := h st
  cases r with
  | error e => exact ⟨.error e, fun shelf => by rw [bind_apply, hr]; rfl⟩
  | ok x =>
    obtain ⟨r', hr'⟩ := hf x st
    exact ⟨r', fun shelf => by rw [bind_apply, hr]; exact hr' shelf⟩

/-- The line may be looked at as well. -/
theorem looks_line {f : Int → Run α} (hf : ∀ line, Looks (f line)) :
    Looks (do f (← get).line) :=
  fun st => hf st.line st

theorem looks_eval (s : Setting) (e : Expr) : Looks (eval s e) :=
  looks_bind (looks_look s) fun _ => looks_ofExcept _

theorem looks_evalFiltered (s : Setting) (e : Expr) (calls : List FilterCall) :
    Looks (evalFiltered s e calls) :=
  looks_bind (looks_look s) fun _ => looks_ofExcept _

theorem looks_checkDepth (s : Setting) (name : String) : Looks (checkDepth s name) := by
  unfold checkDepth
  cases s.place with
  | none => exact looks_line fun _ => looks_pure ()
  | some p =>
    exact looks_line fun line =>
      looks_ofExcept ((p.check line name).mapError fun e => .of (.render e))

/-- A template that is found is fetched under the name that the expression stands for. -/
theorem fetch_of_find {s : Setting} {tag : String} {e : Expr} {t : Loaded} {st st' : State}
    (h : find s tag e st = (.ok t, st')) :
    ∃ v : Value, eval s e st = (.ok v, st) ∧ fetch s tag v.toText st = (.ok t, st') := by
  obtain ⟨r, hr⟩ := (looks_eval s e).apply st
  cases r with
  | error f => rw [find, bind_of_error hr] at h; cases h
  | ok v =>
    rw [find, bind_of_ok hr] at h
    obtain ⟨r', hr'⟩ := (looks_checkDepth s v.toText).apply st
    cases r' with
    | error f => rw [bind_of_error hr'] at h; cases h
    | ok u => rw [bind_of_ok hr'] at h; exact ⟨v, hr, h⟩

theorem looks_evalItems (s : Setting) (e : Expr) : Looks (evalItems s e) :=
  looks_bind (looks_eval s e) fun _ => looks_ofExcept _

theorem looks_evalCount (s : Setting) (e : Option Expr) : Looks (evalCount s e) := by
  cases e with
  | none => exact looks_pure none
  | some e => exact looks_bind (looks_eval s e) fun _ => looks_pure _

theorem looks_loopItems (s : Setting) (head : LoopHead) : Looks (loopItems s head) :=
  looks_bind (looks_evalItems s _) fun _ =>
    looks_bind (looks_evalCount s _) fun _ =>
      looks_bind (looks_evalCount s _) fun _ => looks_pure _

theorem looks_evalBindings (s : Setting) (bindings : List (String × Expr)) :
    Looks (evalBindings s bindings) :=
  looks_bind (looks_look s) fun _ => looks_ofExcept _

theorem looks_evalGiven (s : Setting) (what : Inclusion) (t : Loaded) :
    Looks (evalGiven s what t) := by
  refine looks_bind (looks_evalBindings s _) fun bindings => ?_
  cases what.given with
  | none => exact looks_pure bindings
  | some e => exact looks_bind (looks_eval s e) fun _ => looks_pure _

theorem looks_evalArguments (s : Setting) (arguments : List Expr) :
    Looks (evalArguments s arguments) :=
  looks_bind (looks_look s) fun _ => looks_ofExcept _

theorem looks_unknownTag (s : Setting) (name : String) : Looks (unknownTag s name) :=
  looks_line fun line => looks_ofExcept (.error (.of (.render (.at s.place line
    ("Unknown tag '" ++ name ++ "'") .unknownRenderTag
    (some "Register it with Environment.add_tag() before rendering")))))

theorem looks_chooseBranch (s : Setting) (otherwise : List Node) (branches : List (Branch Node)) :
    Looks (chooseBranch s otherwise branches) := by
  induction branches with
  | nil => exact looks_pure otherwise
  | cons b rest ih =>
    refine looks_bind (looks_eval s _) fun v => ?_
    split
    · exact looks_pure _
    · exact ih

theorem looks_chooseBody (s : Setting) (negated : Bool) (test : Expr) (body : List Node)
    (branches : List (Branch Node)) (otherwise : List Node) :
    Looks (chooseBody s negated test body branches otherwise) := by
  refine looks_bind (looks_eval s _) fun v => ?_
  split
  · exact looks_pure _
  · exact looks_chooseBranch s otherwise branches

theorem looks_matchesAny (s : Setting) (subject : Value) (values : List Expr) :
    Looks (matchesAny s subject values) := by
  induction values with
  | nil => exact looks_pure false
  | cons e rest ih =>
    refine looks_bind (looks_eval s e) fun v => looks_bind (looks_ofExcept _) fun b => ?_
    cases b
    · exact ih
    · exact looks_pure true

theorem looks_chooseWhen (s : Setting) (subject : Value) (otherwise : List Node)
    (whens : List (When Node)) : Looks (chooseWhen s subject otherwise whens) := by
  induction whens with
  | nil => exact looks_pure otherwise
  | cons w rest ih =>
    refine looks_bind (looks_matchesAny s subject _) fun b => ?_
    cases b
    · exact ih
    · exact looks_pure _

end Run

end Liquid
