import Liquid.Proofs.Reading.Signals
import Liquid.Render.Node
import Mathlib

/-!
# A choice is a chain of conditionals

A choice evaluates its subject once and looks for the first part with a value that is equal to it.
The conditional that asks the same has a test for each part: the subject is equal to the first value
or to the second or to a later one.  It evaluates the subject again with every comparison, and it
evaluates truth values where the choice compares.  Both come to the same, whatever the subject and
the values are and wherever their evaluation fails.

**One state.** Evaluation only looks at the rendering.  So the subject has the same value, or fails
in the same way, each time it is evaluated before a body has been chosen.

* `eval_equalsAny`: the test of a part, one value after the other.
* `matchesAny_apply`: the test holds if the part has a value that is equal to the subject.
* `gives_whenValues`: every part that is read from a source has a value.
* `renderNode_choice_eq_conditional`: the choice and the conditional are one rendering.
-/
namespace Liquid

/-- The test whether one of the values is equal to the subject: comparisons nested to the right with
`or` between. -/
def Expr.equalsAny (pos : Position) (subject : Expr) : List Expr → Expr
  | [] => .const pos (.bool false)
  | [value] => .compare pos subject .equal value
  | value :: rest =>
    .connect pos (.compare pos subject .equal value) .or (equalsAny pos subject rest)

/-- The part of a choice as a branch of a conditional. -/
def When.toBranch (subject : Expr) (w : When Node) : Branch Node :=
  ⟨.equalsAny w.pos subject w.values, w.body⟩

namespace Expr

variable (view : View) (strict : Bool)

/-- Whether an expression holds. -/
def holds (e : Expr) : Except Error Bool := (e.eval view strict).map Value.isTruthy

theorem holds_equalsAny_cons (pos : Position) (subject value : Expr) (rest : List Expr) :
    (equalsAny pos subject (value :: rest)).holds view strict = (do
      let x ← subject.eval view strict
      let y ← value.eval view strict
      if ← orFault (x.equals y) then return true
      else (equalsAny pos subject rest).holds view strict) := by
  unfold holds
  cases rest with
  | nil =>
    simp only [equalsAny, eval, compareValues]
    cases subject.eval view strict with
    | error e => rfl
    | ok x =>
      cases value.eval view strict with
      | error e => rfl
      | ok y =>
        simp only [bind, Except.bind]
        cases orFault (x.equals y) with
        | error e => rfl
        | ok b => cases b <;> rfl
  | cons next rest =>
    simp only [equalsAny, eval, compareValues]
    cases subject.eval view strict with
    | error e => rfl
    | ok x =>
      cases value.eval view strict with
      | error e => rfl
      | ok y =>
        simp only [bind, Except.bind]
        cases orFault (x.equals y) with
        | error e => rfl
        | ok b =>
          cases b with
          | true => rfl
          | false =>
            simp only [Value.isTruthy]
            cases (equalsAny pos subject (next :: rest)).eval view strict <;> rfl

end Expr

namespace Run

variable {s : Setting} {st : State} {subject : Expr} {x : Value}

theorem matchesAny_apply (h : subject.eval (s.view st) s.around.strict = .ok x) (pos : Position)
    (values : List Expr) :
    matchesAny s x values st =
      (((Expr.equalsAny pos subject values).holds (s.view st) s.around.strict).mapError Stop.error,
        st) := by
  induction values with
  | nil => rfl
  | cons value rest ih =>
    rw [Expr.holds_equalsAny_cons, h, matchesAny, bind_apply, eval_apply]
    cases value.eval (s.view st) s.around.strict with
    | error e => rfl
    | ok y =>
      simp only [Except.mapError]
      rw [bind_apply, ofExcept_apply]
      cases hxy : orFault (x.equals y) with
      | error e => simp [bind, Except.bind, hxy, Except.mapError]
      | ok b =>
        cases b with
        | true =>
          simp only [bind, Except.bind, hxy, Except.mapError]
          rfl
        | false => simpa [bind, Except.bind, hxy, Except.mapError] using ih

end Run

open Run

/-- Every part that is read from a source has a value. -/
theorem Reading.gives_whenValues (s : List Token) :
    Gives (fun values => values ≠ []) (whenValues s) :=
  gives_of_forall fun _ => gives_of_forall fun _ => gives_of_forall fun _ => List.cons_ne_nil _ _

section

variable {deeper : Option Renderer} {s : Setting} {st : State} {subject : Expr}
  {otherwise : Run Unit}

theorem renderBranches_cons (b : Branch Node) (rest : List (Branch Node)) :
    renderBranches deeper s otherwise (b :: rest) st =
      match b.test.holds (s.view st) s.around.strict with
      | .ok true => renderNodes deeper s b.body st
      | .ok false => renderBranches deeper s otherwise rest st
      | .error e => (.error (.error e), st) := by
  rw [renderBranches, bind_apply, eval_apply]
  unfold Expr.holds
  cases b.test.eval (s.view st) s.around.strict with
  | error e => rfl
  | ok v =>
    simp only [Except.mapError, Except.map]
    cases v.isTruthy <;> simp

/-- Where the subject has a value, the branches choose what the parts choose. -/
theorem renderBranches_toBranch {x : Value}
    (h : subject.eval (s.view st) s.around.strict = .ok x) (whens : List (When Node)) :
    renderBranches deeper s otherwise (whens.map (When.toBranch subject)) st =
      renderWhens deeper s x otherwise whens st := by
  induction whens with
  | nil => simp only [List.map_nil, renderBranches, renderWhens]
  | cons w rest ih =>
    rw [List.map_cons, renderBranches_cons, ih, renderWhens, bind_apply,
      matchesAny_apply h w.pos w.values]
    simp only [When.toBranch]
    cases (Expr.equalsAny w.pos subject w.values).holds (s.view st) s.around.strict with
    | error e => rfl
    | ok b => cases b <;> rfl

/-- Where the subject has none, the first comparison fails. -/
theorem renderBranches_toBranch_error {e : Error}
    (h : subject.eval (s.view st) s.around.strict = .error e) {whens : List (When Node)}
    (hvalues : ∃ w ∈ whens, w.values ≠ []) :
    renderBranches deeper s otherwise (whens.map (When.toBranch subject)) st =
      (.error (.error e), st) := by
  induction whens with
  | nil =>
    obtain ⟨w, hw, -⟩ := hvalues
    cases hw
  | cons w rest ih =>
    rw [List.map_cons, renderBranches_cons]
    obtain ⟨pos, values, body⟩ := w
    cases values with
    | nil =>
      obtain ⟨w, hw, hne⟩ := hvalues
      obtain rfl | hw := List.mem_cons.mp hw
      · exact absurd rfl hne
      · exact ih ⟨w, hw, hne⟩
    | cons value values =>
      simp only [When.toBranch, Expr.holds_equalsAny_cons, h]
      rfl

end

theorem renderNode_conditional_eq_branches (deeper : Option Renderer) (s : Setting)
    (pos : Position) (test : Expr) (body : List Node) (branches : List (Branch Node))
    (otherwise : List Node) :
    renderNode deeper s (.conditional pos false test body branches otherwise) =
      renderBranches deeper s (renderNodes deeper s otherwise) (⟨test, body⟩ :: branches) := by
  rw [renderNode, renderBranches]
  simp only [Bool.bne_false]

/-- A choice is rendered as the conditional whose tests compare its subject with the values of its
parts, in every setting and state: with the same output, bindings, signals and errors.  A choice
without values still evaluates its subject, and a conditional without tests has nothing to
evaluate. -/
theorem renderNode_choice_eq_conditional {w : When Node} {rest : List (When Node)}
    (hvalues : ∃ v ∈ w :: rest, v.values ≠ []) (deeper : Option Renderer) (s : Setting)
    (pos : Position) (subject : Expr) (otherwise : List Node) :
    renderNode deeper s (.choice pos subject (w :: rest) otherwise) =
      renderNode deeper s (.conditional pos false (.equalsAny w.pos subject w.values) w.body
        (rest.map (When.toBranch subject)) otherwise) := by
  funext st
  rw [renderNode_conditional_eq_branches, renderNode, bind_apply, eval_apply]
  cases h : subject.eval (s.view st) s.around.strict with
  | error e => exact (renderBranches_toBranch_error h hvalues).symm
  | ok x => exact (renderBranches_toBranch h (w :: rest)).symm

/-! ## A choice between numbers -/

/-- A whole number as an expression. -/
def numeral (n : Int) : Expr := .const .start (.number (.int n))

/-- A part with one value. -/
def partForOne : When Node := ⟨.start, [numeral 1], [.text .start "a"]⟩

/-- A part with two values. -/
def partForMore : When Node := ⟨.start, [numeral 3, numeral 2], [.text .start "b"]⟩

/-- The second value of the second part is that of the subject. -/
theorem renderNode_choice_eq_conditional_second :
    (∃ w ∈ [partForOne, partForMore], w.values ≠ []) ∧
      (renderNode none ⟨⟨none, {}, {}⟩, ⟨[], [], [], true⟩, none⟩
        (.conditional .start false (.equalsAny .start (numeral 2) [numeral 1]) partForOne.body
          [partForMore.toBranch (numeral 2)] [])
        { shelf := { cache := { maxSize := 0, label := "" } } }).2.output = "b" := by
  have hvalues : ∃ w ∈ [partForOne, partForMore], w.values ≠ [] :=
    ⟨partForOne, by simp, List.cons_ne_nil _ _⟩
  refine ⟨hvalues, ?_⟩
  change (renderNode none _ (.conditional .start false
    (.equalsAny partForOne.pos (numeral 2) partForOne.values) partForOne.body
      ([partForMore].map (When.toBranch (numeral 2))) []) _).2.output = "b"
  rw [← renderNode_choice_eq_conditional hvalues]
  cbv

end Liquid
