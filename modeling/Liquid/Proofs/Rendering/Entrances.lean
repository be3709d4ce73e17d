import Liquid.Proofs.Rendering.Chain
import Liquid.Proofs.Rendering.Inlining
import Mathlib

/-!
# With a place and without one

A template is rendered at its place, under the limit of its environment.  Nodes can be rendered
without a place as well; then the first template that is entered is not counted, and the usual limit
holds for those below it, whatever the environment says.  Nothing else tells the two apart.

**Levels.** Both renderings go through the same runs, from the same states.  They differ in what
their errors tell, and in the number of levels: the one that has fewer comes to its limit, or both
end in the same way.

* `Run.Accords`: a run that comes to the limit of depth, or does the same as another run.
* `accords_nodes`: nodes with fewer levels accord with the same nodes with more, at any place.
* `entrances_agree`: what the one rendering returns, the other returns, unless it has fewer levels
  and comes to its limit.
* `not_always_agree`: where no template may be nested, the rendering without a place nests one.
-/
namespace Liquid

namespace Run

variable {α β : Type}

/-- Two results that are the same but for what an error tells. -/
inductive Same : Except Stop α × State → Except Stop α × State → Prop where
  | ok (x : α) (st : State) : Same (.ok x, st) (.ok x, st)
  | signal (signal : Signal) (st : State) :
    Same (.error (.signal signal), st) (.error (.signal signal), st)
  | error (e f : Error) (st : State) : Same (.error (.error e), st) (.error (.error f), st)

theorem Same.refl (r : Except Stop α × State) : Same r r := by
  rcases r with ⟨(signal | e) | x, st⟩
  · exact .signal signal st
  · exact .error e e st
  · exact .ok x st

/-- From every state, the first run comes to the limit of depth, or both do the same. -/
def Accords (run run' : Run α) : Prop := ∀ st, Refused (run st).1 ∨ Same (run st) (run' st)

theorem accords_refl (run : Run α) : Accords run run := fun st => .inr (.refl (run st))

theorem accords_bind_of_ok {run run' : Run α} {f f' : α → Run β} (h : Accords run run')
    (hf : ∀ x st st', run st = (.ok x, st') → Accords (f x) (f' x)) :
    Accords (run >>= f) (run' >>= f') := by
  intro st
  rw [bind_apply, bind_apply]
  have hr := h st
  cases hx : run st with
  | mk r st' =>
    rw [hx] at hr
    generalize run' st = r' at hr
    rcases hr with ⟨e, rfl, he⟩ | hr
    · exact .inl ⟨e, rfl, he⟩
    · cases hr with
      | ok x st' => exact hf x st st' hx st'
      | signal signal st' => exact .inr (.signal signal st')
      | error e f st' => exact .inr (.error e f st')

theorem accords_bind {run run' : Run α} {f f' : α → Run β} (h : Accords run run')
    (hf : ∀ x, Accords (f x) (f' x)) : Accords (run >>= f) (run' >>= f') :=
  accords_bind_of_ok h fun x _ _ _ => hf x

/-- Runs that only look, and that do alike, do the same from one state. -/
theorem Looks.accords (engine : Engine) {run run' : Run α} (h : Looks run) (h' : Looks run')
    (hm : Matches engine Eq run run') : Accords run run' := by
  intro st
  let bare : Shelf := { cache := { maxSize := 0, label := "" } }
  have ha : engine.Agrees bare := fun _ _ hn => absurd hn List.not_mem_nil
  obtain ⟨r, hr⟩ := h st
  obtain ⟨r', hr'⟩ := h' st
  have hs : Results engine "" Eq (run { st with shelf := bare }) (run' { st with shelf := bare }) :=
    hm "" _ _ ⟨String.empty_append.symm, rfl, rfl, rfl, ha, ha⟩
  rw [hr, hr'] at hs
  have e : run st = _ := hr st.shelf
  have e' : run' st = _ := hr' st.shelf
  rw [e, e']
  cases r <;> cases r' <;> cases hs
  · exact .inr (.error _ _ st)
  · rename_i x y hxy _
    subst hxy
    exact .inr (.ok x st)

/-! ## What is made of runs -/

section

variable {run run' : Run Unit}

theorem accords_untilSignal (h : Accords run run') :
    Accords (untilSignal run) (untilSignal run') := by
  intro st
  have hr := h st
  unfold untilSignal
  generalize run st = r at hr
  generalize run' st = r' at hr
  rcases hr with ⟨e, hr, he⟩ | hr
  · obtain ⟨_, st'⟩ := r
    cases hr
    exact .inl ⟨e, rfl, he⟩
  · cases hr with
    | ok x st' => exact .inr (.ok none st')
    | signal signal st' => exact .inr (.ok (some signal) st')
    | error e f st' => exact .inr (.error e f st')

theorem accords_visitAll {visit visit' : Int → Value → Run Unit}
    (h : ∀ position v, Accords (visit position v) (visit' position v)) (position : Int)
    (items : List Value) :
    Accords (visitAll visit position items) (visitAll visit' position items) := by
  induction items generalizing position with
  | nil => exact accords_refl _
  | cons v rest ih =>
    refine accords_bind (accords_untilSignal (h position v)) fun signal => ?_
    cases signal with
    | none => exact ih (position + 1)
    | some signal =>
      cases signal with
      | leave => exact accords_refl _
      | next => exact ih (position + 1)

theorem accords_forAll {visit visit' : Int → Value → Run Unit}
    (h : ∀ position v, Accords (visit position v) (visit' position v)) (position : Int)
    (items : List Value) :
    Accords (forAll visit position items) (forAll visit' position items) := by
  induction items generalizing position with
  | nil => exact accords_refl _
  | cons v rest ih => exact accords_bind (h position v) fun _ => ih (position + 1)

theorem accords_captured (h : Accords run run') : Accords (captured run) (captured run') := by
  intro st
  have hr := h { st with output := "" }
  rw [captured_apply, captured_apply]
  generalize run { st with output := "" } = r at hr
  generalize run' { st with output := "" } = r' at hr
  rcases hr with ⟨e, hr, he⟩ | hr
  · obtain ⟨_, st'⟩ := r
    cases hr
    exact .inl ⟨e, rfl, he⟩
  · cases hr with
    | ok x st' => exact .inr (.ok _ _)
    | signal signal st' => exact .inr (.signal signal _)
    | error e f st' => exact .inr (.error e f _)

theorem accords_enter (h : Accords run run') (place place' : Option Place) :
    Accords (enter place run) (enter place' run') := by
  intro st
  have hr := h { st with line := 0 }
  rw [enter_apply, enter_apply]
  generalize run { st with line := 0 } = r at hr
  generalize run' { st with line := 0 } = r' at hr
  rcases hr with ⟨e, hr, he⟩ | hr
  · obtain ⟨_, st'⟩ := r
    cases hr
    exact .inl ⟨e, rfl, he⟩
  · cases hr with
    | ok x st' => exact .inr (.ok _ _)
    | signal signal st' => exact .inr (.error _ _ _)
    | error e f st' => exact .inr (.error _ _ _)

theorem accords_isolate (h : Accords run run') (taken : Nat) :
    Accords (isolate taken run) (isolate taken run') := by
  intro st
  have hr := h { st with locals := [], positions := .outside taken }
  unfold isolate
  generalize run { st with locals := [], positions := .outside taken } = r at hr
  generalize run' { st with locals := [], positions := .outside taken } = r' at hr
  rcases hr with ⟨e, hr, he⟩ | hr
  · obtain ⟨_, st'⟩ := r
    cases hr
    exact .inl ⟨e, rfl, he⟩
  · cases hr with
    | ok x st' => exact .inr (.ok _ _)
    | signal signal st' => exact .inr (.signal signal _)
    | error e f st' => exact .inr (.error e f _)

end

/-! ## Nodes -/

variable {s : Setting} {k k' : Nat}

theorem like_place (s : Setting) (place : Option Place) : s.around.Like { s with place }.around :=
  .refl s.around

theorem accords_look {f f' : View → Run α} (place : Option Place)
    (h : ∀ view, Accords (f view) (f' { view with place })) :
    Accords (look s >>= f) (look { s with place } >>= f') :=
  fun st => h (s.view st) st

theorem accords_eval (place : Option Place) (e : Expr) :
    Accords (eval s e) (eval { s with place } e) :=
  (looks_eval s e).accords s.engine (looks_eval _ e) (matches_eval (like_place s place) e)

theorem accords_evalFiltered (place : Option Place) (e : Expr) (calls : List FilterCall) :
    Accords (evalFiltered s e calls) (evalFiltered { s with place } e calls) :=
  (looks_evalFiltered s e calls).accords s.engine (looks_evalFiltered _ e calls)
    (matches_evalFiltered (like_place s place) rfl e calls)

theorem accords_evalItems (place : Option Place) (e : Expr) :
    Accords (evalItems s e) (evalItems { s with place } e) :=
  (looks_evalItems s e).accords s.engine (looks_evalItems _ e)
    (matches_evalItems (like_place s place) e)

theorem accords_loopItems (place : Option Place) (head : LoopHead) :
    Accords (loopItems s head) (loopItems { s with place } head) :=
  (looks_loopItems s head).accords s.engine (looks_loopItems _ head)
    (matches_loopItems (like_place s place) head)

theorem accords_evalBindings (place : Option Place) (bindings : List (String × Expr)) :
    Accords (evalBindings s bindings) (evalBindings { s with place } bindings) :=
  (looks_evalBindings s bindings).accords s.engine (looks_evalBindings _ bindings)
    (matches_evalBindings (like_place s place) bindings)

theorem accords_evalGiven (place : Option Place) (what : Inclusion) (t : Loaded) :
    Accords (evalGiven s what t) (evalGiven { s with place } what t) :=
  (looks_evalGiven s what t).accords s.engine (looks_evalGiven _ what t)
    (matches_evalGiven (like_place s place) what rfl)

theorem accords_chooseBody (place : Option Place) (negated : Bool) (test : Expr) (body : List Node)
    (branches : List (Branch Node)) (otherwise : List Node) :
    Accords (chooseBody s negated test body branches otherwise)
      (chooseBody { s with place } negated test body branches otherwise) :=
  (looks_chooseBody s negated test body branches otherwise).accords s.engine
    (looks_chooseBody _ negated test body branches otherwise)
    (matches_chooseBody (like_place s place) negated test body branches otherwise)

theorem accords_chooseWhen (place : Option Place) (subject : Value) (otherwise : List Node)
    (whens : List (When Node)) :
    Accords (chooseWhen s subject otherwise whens)
      (chooseWhen { s with place } subject otherwise whens) :=
  (looks_chooseWhen s subject otherwise whens).accords s.engine
    (looks_chooseWhen _ subject otherwise whens)
    (matches_chooseWhen (like_place s place) subject otherwise whens)

theorem accords_unknownTag (place : Option Place) (name : String) :
    Accords (unknownTag s name) (unknownTag { s with place } name) :=
  (looks_unknownTag s name).accords s.engine (looks_unknownTag _ name)
    (matches_unknownTag name)

theorem accords_beginItems (place : Option Place) (what : Inclusion) (e : Expr) :
    Accords (beginItems s what e) (beginItems { s with place } what e) :=
  accords_bind (accords_evalBindings place _) fun _ =>
    accords_bind (accords_evalItems place e) fun _ => accords_refl _

/-- A setting in which no tag of the host is known. -/
def Tagless (s : Setting) : Prop := ∀ name, s.engine.tags.get? name = none

/-- Two renderers for which nodes accord with themselves, at any place. -/
def AccordsBy (renderer renderer' : Renderer) (nodes : List Node) : Prop :=
  ∀ (s : Setting) (place : Option Place), Tagless s →
    Accords (renderer s nodes) (renderer' { s with place } nodes)

/-- All nodes with fewer levels than so many accord with themselves with more. -/
def AccordsBelow (k : Nat) : Prop :=
  ∀ j j', j < k → j ≤ j' → ∀ nodes, AccordsBy (renderNodes (below j)) (renderNodes (below j')) nodes

/-- What is done with a template that a node names.  Where nothing can be entered, the limit is
reached; elsewhere both runs take the same template, from the same shelf. -/
theorem accords_findTemplate {rest rest' : Renderer × Loaded → Run Unit} (hk : k ≤ k')
    (hlow : AccordsBelow k) (place : Option Place)
    (h : ∀ renderer renderer' t, (∀ nodes, AccordsBy renderer renderer' nodes) →
      Accords (rest (renderer, t)) (rest' (renderer', t)))
    (tag : String) (e : Expr) :
    Accords (findTemplate (below k) s tag e >>= rest)
      (findTemplate (below k') { s with place } tag e >>= rest') := by
  rw [findTemplate, findTemplate, bind_assoc, bind_assoc]
  refine accords_bind (accords_eval place e) fun v => ?_
  cases k with
  | zero => exact fun st => .inl ⟨_, rfl, rfl⟩
  | succ j =>
    obtain ⟨j', rfl⟩ : ∃ j', k' = j' + 1 := ⟨k' - 1, by omega⟩
    change Accords ((fetch s tag v.toText >>= fun t => pure (renderNodes (below j), t)) >>= rest)
      ((fetch s tag v.toText >>= fun t => pure (renderNodes (below j'), t)) >>= rest')
    rw [bind_assoc, bind_assoc]
    exact accords_bind (accords_refl _) fun t =>
      h _ _ t (hlow j j' (Nat.lt_succ_self j) (Nat.le_of_succ_le_succ hk))

theorem accords_renderTemplate {renderer renderer' : Renderer} {t : Loaded}
    (h : AccordsBy renderer renderer' t.nodes) (htags : Tagless s) (place : Option Place) :
    Accords (renderTemplate renderer s t) (renderTemplate renderer' { s with place } t) := by
  intro st
  have hr := h { s with place := some (placeOf s st.line t) }
    (some (placeOf { s with place } st.line t)) htags
  exact accords_enter hr _ _ st

theorem accords_include (htags : Tagless s) (hk : k ≤ k') (hlow : AccordsBelow k)
    (place : Option Place) (what : Inclusion) (each : Option Expr) :
    Accords (includeTemplate (below k) s what each)
      (includeTemplate (below k') { s with place } what each) := by
  refine accords_findTemplate hk hlow place (fun renderer renderer' t ht => ?_) "include" _
  cases each with
  | none =>
    exact accords_bind (accords_evalGiven place what t) fun bindings =>
      accords_renderTemplate (s := s.push bindings) (ht _) htags place
  | some e =>
    refine accords_bind (accords_beginItems place what e) ?_
    rintro ⟨bindings, items, l⟩
    refine accords_forAll (fun position v => ?_) 0 items
    exact accords_bind (accords_refl _) fun _ =>
      accords_renderTemplate (s := s.push (bindings.set (aliasIn what t) v)) (ht _) htags place

theorem accords_alone (htags : Tagless s) (hk : k ≤ k') (hlow : AccordsBelow k)
    (place : Option Place) (what : Inclusion) :
    Accords (renderAlone (below k) s what) (renderAlone (below k') { s with place } what) := by
  refine accords_findTemplate hk hlow place (fun renderer renderer' t ht => ?_) "render" _
  refine accords_bind (accords_evalGiven place what t) fun bindings => ?_
  exact accords_isolate
    (accords_renderTemplate (s := s.within (.isolated bindings)) (ht _) htags place) _

/-- A node whose bodies accord with themselves accords with itself. -/
theorem accords_node (htags : Tagless s) (hk : k ≤ k') (hlow : AccordsBelow k)
    (place : Option Place) {n : Node}
    (hb : ∀ body ∈ n.bodies, AccordsBy (renderNodes (below k)) (renderNodes (below k')) body) :
    Accords (renderNode (below k) s n) (renderNode (below k') { s with place } n) := by
  cases n with
  | text pos text | raw pos text => exact accords_refl _
  | comment pos text => exact accords_refl _
  | output pos e filters left right =>
    cases e with
    | none => exact accords_refl _
    | some e =>
      rw [renderNode, renderNode]
      exact accords_bind (accords_evalFiltered place e filters) fun _ => accords_refl _
  | conditional pos negated test body branches otherwise =>
    rw [renderNode_conditional, renderNode_conditional]
    exact accords_bind_of_ok (accords_chooseBody place negated test body branches otherwise)
      fun chosen _ _ hc => hb chosen (mem_bodies_of_chooseBody hc) s place htags
  | loop pos head body otherwise =>
    rw [renderNode, renderNode]
    refine accords_bind (accords_loopItems place head) fun items => ?_
    cases items with
    | nil => exact hb otherwise (.tail _ (.head _)) s place htags
    | cons v rest =>
      refine accords_look place fun view => ?_
      refine accords_bind (accords_refl (beginLoop _ (enclosingLoop view))) fun l => ?_
      refine accords_visitAll (fun position v => ?_) 0 (v :: rest)
      exact accords_bind (accords_refl _) fun _ => hb body (.head _) (s.push _) place htags
  | choice pos subject whens otherwise =>
    rw [renderNode_choice, renderNode_choice, bind_assoc, bind_assoc]
    refine accords_bind (accords_eval place subject) fun v => ?_
    exact accords_bind_of_ok (accords_chooseWhen place v otherwise whens)
      fun chosen _ _ hc => hb chosen (mem_bodies_of_chooseWhen hc) s place htags
  | signal pos signal => rw [renderNode, renderNode]; exact accords_refl _
  | assign pos name e filters =>
    rw [renderNode, renderNode]
    exact accords_bind (accords_evalFiltered place e filters) fun _ => accords_refl _
  | capture pos name body =>
    rw [renderNode, renderNode]
    exact accords_bind (accords_captured (hb body (.head _) s place htags)) fun _ => accords_refl _
  | «include» pos what each =>
    rw [renderNode, renderNode]
    exact accords_include htags hk hlow place what each
  | render pos what =>
    rw [renderNode, renderNode]
    exact accords_alone htags hk hlow place what
  | tag pos name arguments body markup =>
    rw [renderNode, renderNode, hostTag, hostTag, htags]
    exact accords_unknownTag place name

/-- Nodes with fewer levels accord with the same nodes with more, at any place. -/
theorem accords_nodes (hk : k ≤ k') (nodes : List Node) :
    AccordsBy (renderNodes (below k)) (renderNodes (below k')) nodes := by
  induction k using Nat.strongRecOn generalizing k' nodes with
  | ind k ihk =>
    have hlow : AccordsBelow k := fun j j' hj hjj => ihk j hj hjj
    induction nodes using Node.induction_bodies with
    | h nodes ihb =>
      intro s place htags
      induction nodes with
      | nil =>
        rw [renderNodes_nil, renderNodes_nil]
        exact accords_refl _
      | cons n rest ih =>
        obtain ⟨hn, hrest⟩ := List.forall_mem_cons.1 ihb
        rw [renderNodes_cons, renderNodes_cons]
        refine accords_bind (accords_refl _) fun _ => ?_
        exact accords_bind (accords_node htags hk hlow place hn) fun _ => ih hrest

end Run

/-! ## The two renderings -/

/-- A rendering that came to the limit of depth. -/
def TooDeep {α : Type} (r : Except Error α) : Prop :=
  ∃ e : RenderError, r = .error (.of (.render e)) ∧ e.code = .includeDepth

namespace Run

/-- A run that wrote a text and ended normally. -/
def Wrote (text : String) (r : Except Stop Unit × State) : Prop := r.1 = .ok () ∧ r.2.output = text

variable {text : String} {r r' : Except Stop Unit × State}

theorem Wrote.not_refused (h : Wrote text r) : ¬ Refused r.1 := by
  rintro ⟨e, he, -⟩
  cases h.1.symm.trans he

theorem Same.wrote (h : Same r r') : Wrote text r ↔ Wrote text r' := by
  cases h with
  | ok x st => exact Iff.rfl
  | signal signal st => exact Iff.rfl
  | error e f st => exact iff_of_false (fun h => by cases h.1) fun h => by cases h.1

end Run

open Run

namespace Environment

variable {env : Environment} {t : Template} {data : Bindings} {text : String}

/-- What the nodes of a template do, rendered at its place. -/
def runPlaced (env : Environment) (t : Template) (data : Bindings) : Except Stop Unit × State :=
  renderNodes (below env.levels) (env.setting data (some (env.placeOf t))) t.nodes
    (env.start (env.setting data none))

/-- What nodes do, rendered without a place. -/
def runFree (env : Environment) (nodes : List Node) (data : Bindings) : Except Stop Unit × State :=
  renderNodes (below freeLevels) (env.setting data none) nodes (env.start (env.setting data none))

theorem render_eq (env : Environment) (t : Template) (data : Bindings) :
    (env.render t data).1 =
      (ended ((env.runPlaced t data).1.mapError fun (stop : Stop) =>
        .error (stop.toError.positioned (some (env.placeOf t)) (env.runPlaced t data).2.line))).map
        fun () => (env.runPlaced t data).2.output := by
  unfold render
  dsimp only
  rw [enter_apply]
  rfl

theorem render_ok_iff : (env.render t data).1 = .ok text ↔ Wrote text (env.runPlaced t data) := by
  rw [render_eq, Wrote]
  cases (env.runPlaced t data).1 with
  | ok _ => exact ⟨fun h => ⟨rfl, Except.ok.inj h⟩, fun h => congrArg Except.ok h.2⟩
  | error stop => exact iff_of_false (fun h => by cases h) fun h => by cases h.1

theorem renderFree_ok_iff :
    (env.renderFree t.nodes data).1.map Prod.fst = .ok text ↔
      Wrote text (env.runFree t.nodes data) := by
  change Except.map _ (Except.map _ (ended (env.runFree t.nodes data).1)) = _ ↔ _
  rw [Wrote]
  cases (env.runFree t.nodes data).1 with
  | ok _ => exact ⟨fun h => ⟨rfl, Except.ok.inj h⟩, fun h => congrArg Except.ok h.2⟩
  | error stop => exact iff_of_false (fun h => by cases h) fun h => by cases h.1

theorem tooDeep_render (h : Refused (env.runPlaced t data).1) : TooDeep (env.render t data).1 := by
  obtain ⟨e, he, hc⟩ := h
  refine ⟨e, ?_, hc⟩
  rw [render_eq, he]
  rfl

theorem tooDeep_renderFree (h : Refused (env.runFree t.nodes data).1) :
    TooDeep ((env.renderFree t.nodes data).1.map Prod.fst) := by
  obtain ⟨e, he, hc⟩ := h
  refine ⟨e, ?_, hc⟩
  change Except.map _ (Except.map _ (ended (env.runFree t.nodes data).1)) = _
  rw [he]
  rfl

theorem placed_or_free (htags : ∀ name, env.engine.tags.get? name = none)
    (hk : env.levels ≤ freeLevels) :
    Refused (env.runPlaced t data).1 ∨ Same (env.runPlaced t data) (env.runFree t.nodes data) :=
  accords_nodes hk t.nodes (env.setting data (some (env.placeOf t))) none htags _

theorem free_or_placed (htags : ∀ name, env.engine.tags.get? name = none)
    (hk : freeLevels ≤ env.levels) :
    Refused (env.runFree t.nodes data).1 ∨ Same (env.runFree t.nodes data) (env.runPlaced t data) :=
  accords_nodes hk t.nodes (env.setting data none) (some (env.placeOf t)) htags _

end Environment

open Environment

/-- Where no tag of the host is known, a template at its place and its nodes without a place are
rendered to the same texts, unless the rendering that has fewer levels comes to its limit: at its
place a template has those of its environment, without a place it has always the usual ones and one
more. -/
theorem entrances_agree {env : Environment} (htags : ∀ name, env.engine.tags.get? name = none)
    (t : Template) (data : Bindings) :
    let placed := (env.render t data).1
    let free := (env.renderFree t.nodes data).1.map Prod.fst
    (∀ text, placed = .ok text → free = .ok text ∨ freeLevels < env.levels ∧ TooDeep free) ∧
      ∀ text, free = .ok text → placed = .ok text ∨ env.levels < freeLevels ∧ TooDeep placed := by
  refine ⟨fun text h => ?_, fun text h => ?_⟩
  · rw [render_ok_iff] at h
    rw [renderFree_ok_iff]
    rcases Nat.lt_or_ge freeLevels env.levels with hk | hk
    · rcases free_or_placed htags hk.le with hr | hs
      · exact .inr ⟨hk, tooDeep_renderFree hr⟩
      · exact .inl (hs.wrote.2 h)
    · rcases placed_or_free htags hk with hr | hs
      · exact absurd hr h.not_refused
      · exact .inl (hs.wrote.1 h)
  · rw [renderFree_ok_iff] at h
    rw [render_ok_iff]
    rcases Nat.lt_or_ge env.levels freeLevels with hk | hk
    · rcases placed_or_free htags hk.le with hr | hs
      · exact .inr ⟨hk, tooDeep_render hr⟩
      · exact .inl (hs.wrote.2 h)
    · rcases free_or_placed htags hk with hr | hs
      · exact absurd hr h.not_refused
      · exact .inl (hs.wrote.1 h)

/-! ## A template with a tag that includes another -/

/-- An environment with nothing of the host, a template to include, and this limit of depth. -/
def shallow (limit : Int) : Environment where
  engine := ⟨some (.table [("part", "x")]), {}, {}⟩
  globals := []
  strict := false
  maxDepth := limit
  shelf := { cache := { maxSize := 1, label := "" } }

/-- Where one template may be nested, the tag is rendered alike from both sides. -/
theorem entrances_agree_including :
    (∀ name, (shallow 1).engine.tags.get? name = none) ∧
      ((shallow 1).renderFree Machine.includingPage.nodes []).1.map Prod.fst = .ok "x" := by
  have htags : ∀ name, (shallow 1).engine.tags.get? name = none := fun _ => rfl
  obtain ⟨hfree, -⟩ := entrances_agree htags Machine.includingPage []
  have hplaced : ((shallow 1).render Machine.includingPage []).1 = .ok "x" := by cbv
  exact ⟨htags, (hfree "x" hplaced).resolve_right fun h => absurd h.1 (by decide)⟩

/-- Where none may be nested, the tag is refused at the place of the template, and without a place
the other template is rendered all the same. -/
theorem not_always_agree :
    ¬ ∀ (env : Environment) (t : Template) (data : Bindings) (text : String),
      (∀ name, env.engine.tags.get? name = none) → env.engine.filters.overrides = [] → t.Parsed →
        ((env.render t data).1 = .ok text ↔
          (env.renderFree t.nodes data).1.map Prod.fst = .ok text) := by
  intro h
  have hfree :
      ((shallow 0).renderFree Machine.includingPage.nodes []).1.map Prod.fst = .ok "x" := by
    cbv
  have hplaced : ((shallow 0).render Machine.includingPage []).1.toOption = none := by cbv
  rw [(h (shallow 0) Machine.includingPage [] "x" (fun _ => rfl) rfl
    Machine.parsed_includingPage).2 hfree] at hplaced
  cases hplaced

end Liquid
