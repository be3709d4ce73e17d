import Liquid.Proofs.Reading.Placed
import Liquid.Proofs.Rendering.Missing
import Liquid.Proofs.Rendering.Signals
import Liquid.Proofs.Rendering.Unplaced

/-!
# Why a node fails, and how it goes on

There are few reasons for which a node fails by itself: a name in it means nothing, a filter in it
is not known or fails, templates are nested too deep, one cannot be loaded, its tag is not known, or
there is a fault.  All of them come from what is seen where the node is rendered, although the
errors are made at many places.

If a node does not fail, it ends, or one of its bodies is rendered, or a template, or the steps of a
tag of the host are done.

* `Reason`: the reasons.
* `failsOnly_evalFiltered`: those of an expression with filters.
* `Node.Leads`: how a node goes on.
* `Machine.led_node`: a node stays at its place and on its line, it goes on in one of these ways,
  and if it fails, it is for one of these reasons.
-/
namespace Liquid

/-! ## The expressions of a node -/

/-- The arguments of a filter. -/
def FilterCall.exprs (call : FilterCall) : List Expr := call.arguments ++ call.named.map Prod.snd

/-- What a loop goes through, and the bounds of the part of it. -/
def LoopHead.exprs (head : LoopHead) : List Expr :=
  head.items :: (head.offset.toList ++ head.limit.toList)

/-- The name of the template and what is given to it. -/
def Inclusion.exprs (what : Inclusion) : List Expr :=
  what.template :: (what.bindings.map Prod.snd ++ what.given.toList)

/-- The expressions in a node itself. -/
def Node.exprs : Node → List Expr
  | .output _ e filters _ _ => e.toList ++ filters.flatMap FilterCall.exprs
  | .conditional _ _ test _ branches _ => test :: branches.map Branch.test
  | .loop _ head _ _ => head.exprs
  | .choice _ subject whens _ => subject :: whens.flatMap When.values
  | .assign _ _ e filters => e :: filters.flatMap FilterCall.exprs
  | .include _ what each => what.exprs ++ each.toList
  | .render _ what => what.exprs
  | .tag _ _ arguments _ _ => arguments
  | _ => []

/-! ## Reasons -/

/-- Why a node fails, from what is seen where it is rendered. -/
inductive Reason (engine : Engine) (view : View) (n : Node) : Error → Prop where
  | name {e : Expr} {pos : Position} {name : String} :
    e ∈ n.exprs → e.Asks view true pos name → view.scope.Missing name →
    Reason engine view n (Expr.undefinedName view name pos.line)
  | unknownFilter {call : FilterCall} :
    call ∈ n.calls → engine.filters.get? call.name = none →
    Reason engine view n (call.unknown view engine.filters)
  | filter {call : FilterCall} {f : FilterFunction} {v : Value} {a : Arguments} {e : Error} :
    call ∈ n.calls → engine.filters.get? call.name = some f → f v a = .error e →
    Reason engine view n (e.withinFilter call.name)
  | depth {p : Place} {name : String} :
    n.target?.isSome → view.place = some p → p.limit ≤ p.depth →
    Reason engine view n (.of (.render (p.tooDeep view.line name)))
  | loading {shelf : Shelf} {tag name : String} {e : Error} :
    n.target?.isSome → (engine.fetch name shelf).1 = .error e →
    Reason engine view n (e.askedBy tag)
  | unknownTag {pos : Position} {name markup : String} {arguments : List Expr} {body : List Node} :
    n = .tag pos name arguments body markup → engine.tags.get? name = none →
    Reason engine view n (.of (.render (.at view.place view.line ("Unknown tag '" ++ name ++ "'")
      .unknownRenderTag (some "Register it with Environment.add_tag() before rendering"))))
  | fault (f : Fault) : Reason engine view n (.ofFault f)

section

variable {engine : Engine} {view : View} {n : Node} {strict : Bool}

/-- An expression fails since a name in it means nothing, or with a fault. -/
theorem Expr.failsOnly_eval (view : View) (strict : Bool) (e : Expr) :
    FailsOnly (fun err => err.Undefined ∨ ∃ f, err = .ofFault f) (e.eval view strict) := by
  have fault {α : Type} (r : Except Fault α) :
      FailsOnly (fun err => err.Undefined ∨ ∃ f, err = .ofFault f) (orFault r) :=
    failsOnly_orFault (fun f => .inr ⟨f, rfl⟩) r
  induction e with
  | const pos c => exact failsOnly_pure _
  | name pos n =>
    rw [eval, evalName]
    split
    · cases strict with
      | false => exact failsOnly_pure _
      | true => exact failsOnly_error (.inl ⟨_, _, _, rfl, rfl⟩)
    · exact failsOnly_pure _
  | property p e x ih => exact failsOnly_bind ih fun _ => fault _
  | index p a b iha ihb => exact failsOnly_bind iha fun _ => failsOnly_bind ihb fun _ => fault _
  | range p a b iha ihb =>
    exact failsOnly_bind iha fun _ => failsOnly_bind ihb fun _ => failsOnly_pure _
  | compare p a sign b iha ihb | contains p a b iha ihb =>
    exact failsOnly_bind iha fun _ => failsOnly_bind ihb fun _ =>
      failsOnly_bind (fault _) fun _ => failsOnly_pure _
  | connect p a word b iha ihb =>
    rw [eval_connect]
    refine failsOnly_bind iha fun v => iteInduction (fun _ => ?_) fun _ => failsOnly_pure _
    exact failsOnly_bind ihb fun _ => failsOnly_pure _

theorem failsOnly_eval {e : Expr} (h : e ∈ n.exprs) (engine : Engine) (view : View)
    (strict : Bool) : FailsOnly (Reason engine view n) (e.eval view strict) := by
  intro err he
  rcases e.failsOnly_eval view strict err he with hu | ⟨f, rfl⟩
  · obtain ⟨pos, name, hasks, rfl, hm, rfl⟩ := (e.misses_eval_iff view strict err).1 ⟨he, hu⟩
    exact .name h hasks hm
  · exact .fault f

theorem failsOnly_evalAll {es : List Expr} (h : es ⊆ n.exprs) (engine : Engine) (view : View)
    (strict : Bool) : FailsOnly (Reason engine view n) (Expr.evalAll view strict es) := by
  induction es with
  | nil => exact failsOnly_pure _
  | cons e rest ih =>
    obtain ⟨he, hr⟩ := List.cons_subset.1 h
    exact failsOnly_bind (failsOnly_eval he engine view strict) fun _ =>
      failsOnly_bind (ih hr) fun _ => failsOnly_pure _

theorem failsOnly_evalNamed {es : List (String × Expr)} (h : es.map Prod.snd ⊆ n.exprs)
    (engine : Engine) (view : View) (strict : Bool) (b : Bindings) :
    FailsOnly (Reason engine view n) (Expr.evalNamed view strict es b) := by
  induction es generalizing b with
  | nil => exact failsOnly_pure _
  | cons entry rest ih =>
    obtain ⟨name, e⟩ := entry
    obtain ⟨he, hr⟩ := List.cons_subset.1 h
    exact failsOnly_bind (failsOnly_eval he engine view strict) fun _ => ih hr _

theorem failsOnly_apply {call : FilterCall} (hc : call ∈ n.calls) (he : call.exprs ⊆ n.exprs)
    (engine : Engine) (view : View) (strict : Bool) (v : Value) :
    FailsOnly (Reason engine view n) (call.apply view engine.filters strict v) := by
  unfold FilterCall.apply
  obtain ⟨ha, hn⟩ := List.append_subset.1 he
  cases hf : engine.filters.get? call.name with
  | none => exact failsOnly_error (.unknownFilter hc hf)
  | some f =>
    refine failsOnly_bind (failsOnly_evalAll ha engine view strict) fun _ =>
      failsOnly_bind (failsOnly_evalNamed hn engine view strict _) fun _ => ?_
    intro err herr
    generalize hr : f v _ = r at herr
    cases r with
    | ok x => cases herr
    | error e => cases herr; exact .filter hc hf hr

theorem failsOnly_applyAll {calls : List FilterCall} (hc : calls ⊆ n.calls)
    (he : calls.flatMap FilterCall.exprs ⊆ n.exprs) (engine : Engine) (view : View)
    (strict : Bool) (v : Value) :
    FailsOnly (Reason engine view n)
      (FilterCall.applyAll view engine.filters strict calls v) := by
  induction calls generalizing v with
  | nil => exact failsOnly_pure _
  | cons call rest ih =>
    obtain ⟨hc, hcs⟩ := List.cons_subset.1 hc
    rw [List.flatMap_cons] at he
    obtain ⟨he, hes⟩ := List.append_subset.1 he
    exact failsOnly_bind (failsOnly_apply hc he engine view strict v) fun x => ih hcs hes x

theorem failsOnly_evalFiltered {e : Expr} {calls : List FilterCall} (h : e ∈ n.exprs)
    (hc : calls ⊆ n.calls) (he : calls.flatMap FilterCall.exprs ⊆ n.exprs) (engine : Engine)
    (view : View) (strict : Bool) :
    FailsOnly (Reason engine view n) (e.evalFiltered view engine.filters strict calls) :=
  failsOnly_bind (failsOnly_eval h engine view _) fun v =>
    failsOnly_applyAll hc he engine view strict v

end

/-! ## Runs -/

namespace Run

variable {α β : Type} {s : Setting} {n : Node}

/-- A run that stays on its line, and that fails only for a reason of the node. -/
def Reasoned (s : Setting) (n : Node) (run : Run α) : Prop :=
  ∀ st, (run st).2.line = st.line ∧
    ∀ e, (run st).1 = .error (.error e) → Reason s.engine (s.view st) n e

/-- A run that gives a result of what is seen. -/
theorem reasoned_of_apply {run : Run α} {r : View → Except Error α}
    (h : ∀ st, run st = ((r (s.view st)).mapError Stop.error, st))
    (hr : ∀ view, FailsOnly (Reason s.engine view n) (r view)) : Reasoned s n run := by
  intro st
  rw [h]
  refine ⟨rfl, fun e he => hr _ e ?_⟩
  generalize r (s.view st) = r' at he
  cases r' with
  | ok x => cases he
  | error e' => cases he; rfl

/-- A run that never fails. -/
theorem reasoned_of_ok {run : Run α}
    (h : ∀ st, (run st).2.line = st.line ∧ ∃ x, (run st).1 = .ok x) : Reasoned s n run := by
  intro st
  obtain ⟨hl, x, hx⟩ := h st
  refine ⟨hl, fun e he => ?_⟩
  rw [hx] at he
  cases he

theorem reasoned_bind {run : Run α} {f : α → Run β} (hl : Looks run) (h : Reasoned s n run)
    (hf : ∀ x, Reasoned s n (f x)) : Reasoned s n (run >>= f) := by
  intro st
  rw [bind_apply]
  have hst := hl.state st
  have h := h st
  rcases hr : run st with ⟨stop | x, st'⟩ <;> rw [hr] at h hst <;> cases hst
  · exact ⟨rfl, fun e he => h.2 e (congrArg Except.error (Except.error.inj he))⟩
  · exact hf x _

theorem reasoned_pure (x : α) : Reasoned s n (pure x) := reasoned_of_ok fun _ => ⟨rfl, x, rfl⟩

theorem reasoned_write (text : String) : Reasoned s n (write text) :=
  reasoned_of_ok fun _ => ⟨rfl, (), rfl⟩

theorem reasoned_assign (name : String) (v : Value) : Reasoned s n (assign name v) :=
  reasoned_of_ok fun _ => ⟨rfl, (), rfl⟩

theorem reasoned_orFault (r : Except Fault α) : Reasoned s n (ofExcept (orFault r)) :=
  reasoned_of_apply (r := fun _ => orFault r) (ofExcept_apply _) fun _ =>
    failsOnly_orFault .fault r

theorem reasoned_eval {e : Expr} (h : e ∈ n.exprs) : Reasoned s n (eval s e) :=
  reasoned_of_apply (eval_apply s e) fun view => failsOnly_eval h s.engine view _

theorem reasoned_evalFiltered {e : Expr} {calls : List FilterCall} (h : e ∈ n.exprs)
    (hc : calls ⊆ n.calls) (he : calls.flatMap FilterCall.exprs ⊆ n.exprs) :
    Reasoned s n (evalFiltered s e calls) :=
  reasoned_of_apply (evalFiltered_apply s e calls) fun view =>
    failsOnly_evalFiltered h hc he s.engine view _

theorem reasoned_evalItems {e : Expr} (h : e ∈ n.exprs) : Reasoned s n (evalItems s e) :=
  reasoned_bind (looks_eval s e) (reasoned_eval h) fun _ => reasoned_orFault _

theorem reasoned_evalCount {e : Option Expr} (h : e.toList ⊆ n.exprs) :
    Reasoned s n (evalCount s e) := by
  cases e with
  | none => exact reasoned_pure none
  | some e =>
    exact reasoned_bind (looks_eval s e) (reasoned_eval (h (.head _))) fun _ => reasoned_pure _

theorem reasoned_loopItems {head : LoopHead} (h : head.exprs ⊆ n.exprs) :
    Reasoned s n (loopItems s head) := by
  obtain ⟨hi, h⟩ := List.cons_subset.1 h
  obtain ⟨ho, hl⟩ := List.append_subset.1 h
  exact reasoned_bind (looks_evalItems s _) (reasoned_evalItems hi) fun _ =>
    reasoned_bind (looks_evalCount s _) (reasoned_evalCount ho) fun _ =>
      reasoned_bind (looks_evalCount s _) (reasoned_evalCount hl) fun _ => reasoned_pure _

theorem reasoned_evalBindings {bindings : List (String × Expr)}
    (h : bindings.map Prod.snd ⊆ n.exprs) : Reasoned s n (evalBindings s bindings) :=
  reasoned_of_apply (r := fun view => Expr.evalNamed view s.around.strict bindings [])
    (fun _ => ofExcept_apply _ _) fun view => failsOnly_evalNamed h s.engine view _ []

theorem reasoned_evalGiven {what : Inclusion} (h : what.exprs ⊆ n.exprs) (t : Loaded) :
    Reasoned s n (evalGiven s what t) := by
  obtain ⟨hb, hg⟩ := List.append_subset.1 (List.cons_subset.1 h).2
  refine reasoned_bind (looks_evalBindings s _) (reasoned_evalBindings hb) fun bindings => ?_
  cases hw : what.given with
  | none => exact reasoned_pure bindings
  | some e =>
    rw [hw] at hg
    exact reasoned_bind (looks_eval s e) (reasoned_eval (hg (.head _))) fun _ => reasoned_pure _

theorem reasoned_evalArguments {arguments : List Expr} (h : arguments ⊆ n.exprs) :
    Reasoned s n (evalArguments s arguments) :=
  reasoned_of_apply (r := fun view => Expr.evalAll view s.around.strict arguments)
    (fun _ => ofExcept_apply _ _) fun view => failsOnly_evalAll h s.engine view _

theorem reasoned_beginItems {what : Inclusion} {e : Expr} (h : what.exprs ⊆ n.exprs)
    (he : e ∈ n.exprs) : Reasoned s n (beginItems s what e) :=
  reasoned_bind (looks_evalBindings s _)
    (reasoned_evalBindings (List.append_subset.1 (List.cons_subset.1 h).2).1) fun _ =>
      reasoned_bind (looks_evalItems s e) (reasoned_evalItems he) fun _ =>
        reasoned_of_ok fun _ => ⟨rfl, _, rfl⟩

theorem reasoned_chooseBranch {otherwise : List Node} {branches : List (Branch Node)}
    (h : branches.map Branch.test ⊆ n.exprs) :
    Reasoned s n (chooseBranch s otherwise branches) := by
  induction branches with
  | nil => exact reasoned_pure otherwise
  | cons b rest ih =>
    obtain ⟨hb, hr⟩ := List.cons_subset.1 h
    refine reasoned_bind (looks_eval s _) (reasoned_eval hb) fun v => ?_
    exact iteInduction (fun _ => reasoned_pure _) fun _ => ih hr

theorem reasoned_chooseBody {negated : Bool} {test : Expr} {body otherwise : List Node}
    {branches : List (Branch Node)} (h : test :: branches.map Branch.test ⊆ n.exprs) :
    Reasoned s n (chooseBody s negated test body branches otherwise) := by
  obtain ⟨ht, hb⟩ := List.cons_subset.1 h
  refine reasoned_bind (looks_eval s _) (reasoned_eval ht) fun v => ?_
  exact iteInduction (fun _ => reasoned_pure _) fun _ => reasoned_chooseBranch hb

theorem reasoned_matchesAny {subject : Value} {values : List Expr} (h : values ⊆ n.exprs) :
    Reasoned s n (matchesAny s subject values) := by
  induction values with
  | nil => exact reasoned_pure false
  | cons e rest ih =>
    obtain ⟨he, hr⟩ := List.cons_subset.1 h
    refine reasoned_bind (looks_eval s e) (reasoned_eval he) fun v =>
      reasoned_bind (looks_ofExcept _) (reasoned_orFault _) fun b => ?_
    exact iteInduction (fun _ => reasoned_pure _) fun _ => ih hr

theorem reasoned_chooseWhen {subject : Value} {otherwise : List Node} {whens : List (When Node)}
    (h : whens.flatMap When.values ⊆ n.exprs) :
    Reasoned s n (chooseWhen s subject otherwise whens) := by
  induction whens with
  | nil => exact reasoned_pure otherwise
  | cons w rest ih =>
    rw [List.flatMap_cons] at h
    obtain ⟨hw, hr⟩ := List.append_subset.1 h
    refine reasoned_bind (looks_matchesAny s subject _) (reasoned_matchesAny hw) fun b => ?_
    exact iteInduction (fun _ => reasoned_pure _) fun _ => ih hr

/-! ## Templates -/

theorem reasoned_checkDepth (hn : n.target?.isSome) (name : String) :
    Reasoned s n (checkDepth s name) := by
  intro st
  cases hp : s.place with
  | none =>
    have h : checkDepth s name st = (.ok (), st) := by
      unfold checkDepth
      rw [hp]
      rfl
    rw [h]
    exact ⟨rfl, fun e he => by cases he⟩
  | some p =>
    have h : checkDepth s name st =
        (((p.check st.line name).mapError fun e => Error.of (.render e)).mapError Stop.error, st) := by
      unfold checkDepth
      rw [hp]
      exact ofExcept_apply _ _
    rw [h]
    refine ⟨rfl, fun e he => ?_⟩
    unfold Place.check at he
    split at he
    · rename_i hd
      cases he
      exact .depth hn hp hd
    · cases he

theorem reasoned_fetch (hn : n.target?.isSome) (tag name : String) :
    Reasoned s n (fetch s tag name) := by
  intro st
  rw [fetch_apply]
  refine ⟨rfl, fun e he => ?_⟩
  generalize hf : (s.engine.fetch name st.shelf).1 = found at he
  cases found with
  | ok t => cases he
  | error e' => cases he; exact .loading hn hf

theorem reasoned_find {e : Expr} (hn : n.target?.isSome) (h : e ∈ n.exprs) (tag : String) :
    Reasoned s n (find s tag e) :=
  reasoned_bind (looks_eval s e) (reasoned_eval h) fun _ =>
    reasoned_bind (looks_checkDepth s _) (reasoned_checkDepth hn _) fun _ => reasoned_fetch hn tag _

/-- Looking for a template changes what is on the shelf and nothing else. -/
theorem state_of_find {e : Expr} {tag : String} {t : Loaded} {st st' : State}
    (h : find s tag e st = (.ok t, st')) : ∃ shelf, st' = { st with shelf } := by
  obtain ⟨v, -, hf⟩ := fetch_of_find h
  rw [fetch_apply] at hf
  exact ⟨_, (Prod.mk.inj hf).2.symm⟩

theorem reasoned_unknownTag {pos : Position} {name markup : String} {arguments : List Expr}
    {body : List Node} (hn : n = .tag pos name arguments body markup)
    (ht : s.engine.tags.get? name = none) : Reasoned s n (unknownTag s name) :=
  reasoned_of_apply (r := fun view => .error (.of (.render (.at view.place view.line
    ("Unknown tag '" ++ name ++ "'") .unknownRenderTag
    (some "Register it with Environment.add_tag() before rendering"))))) (fun _ => rfl)
    fun _ => failsOnly_error (.unknownTag hn ht)

end Run

/-! ## Steps -/

/-- How a node goes on, and what waits then before all that waited. -/
inductive Node.Leads (n : Node) : List Frame → Control → Prop where
  | ended (how : Except Stop Unit) : Leads n [] (.ended how)
  | body {body : List Node} : body ∈ n.bodies → Leads n [] (.nodes body)
  | captured {body : List Node} (name output : String) :
    body ∈ n.bodies → Leads n [.captured name output] (.nodes body)
  | visits {body : List Node} (l : Loop) (target : String) (items : List Value) :
    body ∈ n.bodies → Leads n [.visits l target body 0 items, .block] (.ended (.ok ()))
  | items {t : Loaded} (l : Loop) (called : String) (items : List Value) :
    n.target?.isSome → t.toTemplate.Parsed →
    Leads n [.items l called t 0 items, .block] (.ended (.ok ()))
  | included {t : Loaded} :
    n.target?.isSome → t.toTemplate.Parsed → Leads n [.block] (.template t)
  | alone {t : Loaded} (around : Surroundings) (locals : Bindings) (positions : Positions) :
    n.target?.isSome → t.toTemplate.Parsed →
    Leads n [.isolation around locals positions] (.template t)
  | program {pos : Position} {name markup : String} {arguments : List Expr} {body : List Node}
      (p : Program) :
    n = .tag pos name arguments body markup → Leads n [] (.program name body p none)

namespace Machine

variable {α : Type} {engine : Engine} {m m' : Machine} {n : Node}

/-- A node has gone on: at its place and on its line, in one of the ways, and for one of the reasons
if it has failed. -/
structure Led (engine : Engine) (n : Node) (m m' : Machine) : Prop where
  place : m'.place = m.place
  line : m'.state.line = m.state.line
  leads : ∃ frames, m'.stack = frames ++ m.stack ∧ n.Leads frames m'.control
  reason : ∀ e, m'.control = .ended (.error (.error e)) → Reason engine m.view n e

/-- What the node has changed before is only what is on the shelf. -/
theorem Led.after {st : State} (hv : { m with state := st }.view = m.view)
    (h : Led engine n { m with state := st } m') : Led engine n m m' :=
  ⟨h.place.trans (congrArg View.place hv), h.line.trans (congrArg View.line hv), h.leads,
    fun e he => hv ▸ h.reason e he⟩

theorem led_perform {run : Run α} {next : Machine → α → Machine}
    (hr : run.Reasoned (m.setting engine) n)
    (hn : ∀ x st, run m.state = (.ok x, st) → st.line = m.state.line →
      Led engine n m (next { m with state := st } x)) :
    Led engine n m (m.perform run next) := by
  have h := hr m.state
  unfold perform
  rcases hst : run m.state with ⟨stop | x, st⟩ <;> rw [hst] at h
  · refine ⟨rfl, h.1, ⟨[], rfl, .ended _⟩, fun e he => h.2 e ?_⟩
    cases he
    rfl
  · exact hn x st hst h.1

theorem led_done {run : Run Unit} (hr : run.Reasoned (m.setting engine) n) :
    Led engine n m (m.perform run fun m () => m.done) :=
  led_perform hr fun _ _ _ hl => ⟨rfl, hl, ⟨[], rfl, .ended _⟩, fun _ he => by cases he⟩

theorem led_ended (how : Except Stop Unit) (hh : ∀ e, how ≠ .error (.error e)) :
    Led engine n m (m.endWith how) :=
  ⟨rfl, rfl, ⟨[], rfl, .ended how⟩, fun e he => absurd (by cases he; rfl) (hh e)⟩

theorem led_body {body : List Node} (hb : body ∈ n.bodies) {st : State}
    (hl : st.line = m.state.line) : Led engine n m ({ m with state := st }.goOn body) :=
  ⟨rfl, hl, ⟨[], rfl, .body hb⟩, fun _ he => by cases he⟩

theorem view_of_find {s : Setting} {tag : String} {e : Expr} {t : Loaded} {st : State}
    (h : Run.find s tag e m.state = (.ok t, st)) : { m with state := st }.view = m.view := by
  obtain ⟨shelf, rfl⟩ := Run.state_of_find h
  rfl

/-- A node stays at its place and on its line, it goes on in one of the ways, and if it fails, it is
for one of the reasons. -/
theorem led_node (hs : m.state.shelf.Parsed) (engine : Engine) (n : Node) :
    Led engine n m (m.node engine n) := by
  let s := m.setting engine
  cases n with
  | text pos text | raw pos text => exact led_done (Run.reasoned_write text)
  | comment pos text => exact led_ended _ fun _ h => by cases h
  | signal pos signal => exact led_ended _ fun _ h => by cases h
  | output pos e filters standalone source =>
    cases e with
    | none => exact led_ended _ fun _ h => by cases h
    | some e =>
      exact led_done (Run.reasoned_bind (Run.looks_evalFiltered s e filters)
        (Run.reasoned_evalFiltered (.head _) (List.Subset.refl _) (List.subset_append_right _ _))
        fun _ => Run.reasoned_write _)
  | assign pos name e filters =>
    exact led_done (Run.reasoned_bind (Run.looks_evalFiltered s e filters)
      (Run.reasoned_evalFiltered (.head _) (List.Subset.refl _) (List.subset_cons_self _ _))
      fun _ => Run.reasoned_assign name _)
  | capture pos name body =>
    exact ⟨rfl, rfl, ⟨[_], rfl, .captured name _ (.head _)⟩, fun _ he => by cases he⟩
  | conditional pos negated test body branches otherwise =>
    exact led_perform (Run.reasoned_chooseBody (List.Subset.refl _)) fun chosen st hr hl =>
      led_body (Run.mem_bodies_of_chooseBody hr) hl
  | choice pos subject whens otherwise =>
    exact led_perform (Run.reasoned_bind (Run.looks_eval s subject)
      (Run.reasoned_eval (.head _)) fun v => Run.reasoned_chooseWhen (List.subset_cons_self _ _))
      fun chosen st hr hl => led_body (Run.mem_bodies_of_choice hr) hl
  | loop pos head body otherwise =>
    simp only [node]
    refine led_perform (Run.reasoned_loopItems (List.Subset.refl _)) fun items st hr hl => ?_
    cases items with
    | nil => exact led_body (.tail _ (.head _)) hl
    | cons v rest =>
      have hst := (Run.looks_loopItems s head).state m.state
      rw [hr] at hst
      cases hst
      exact led_perform (Run.reasoned_of_ok fun _ => ⟨rfl, _, rfl⟩) fun l st' _ hl' =>
        ⟨rfl, hl', ⟨[_, _], rfl, .visits l head.target _ (.head _)⟩, fun _ he => by cases he⟩
  | «include» pos what each =>
    simp only [node]
    have hw : what.exprs ⊆ (Node.include pos what each).exprs := List.subset_append_left _ _
    refine led_perform (Run.reasoned_find rfl (hw (.head _)) "include") fun t st hf hl => ?_
    have ht := Run.parsed_of_find hf hs
    refine Led.after (view_of_find hf) ?_
    cases each with
    | none =>
      exact led_perform (Run.reasoned_evalGiven hw t) fun bindings st' _ hl =>
        ⟨rfl, hl, ⟨[_], rfl, .included rfl ht⟩, fun _ he => by cases he⟩
    | some e =>
      exact led_perform (Run.reasoned_beginItems hw (List.mem_append_right _ (.head _)))
        fun x st' _ hl =>
          ⟨rfl, hl, ⟨[_, _], rfl, .items x.2.2 _ x.2.1 rfl ht⟩, fun _ he => by cases he⟩
  | render pos what =>
    simp only [node]
    have hw : what.exprs ⊆ (Node.render pos what).exprs := List.Subset.refl _
    refine led_perform (Run.reasoned_find rfl (hw (.head _)) "render") fun t st hf hl => ?_
    have ht := Run.parsed_of_find hf hs
    refine Led.after (view_of_find hf) ?_
    exact led_perform (Run.reasoned_evalGiven hw t) fun bindings st' _ hl =>
      ⟨rfl, hl, ⟨[_], rfl, .alone _ _ _ rfl ht⟩, fun _ he => by cases he⟩
  | tag pos name arguments body markup =>
    simp only [node]
    cases htag : engine.tags.get? name with
    | none => exact led_done (Run.reasoned_unknownTag rfl htag)
    | some tag =>
      exact led_perform (Run.reasoned_evalArguments (List.Subset.refl _)) fun values st _ hl =>
        ⟨rfl, hl, ⟨[], rfl, .program _ rfl⟩, fun _ he => by cases he⟩

end Machine

end Liquid
