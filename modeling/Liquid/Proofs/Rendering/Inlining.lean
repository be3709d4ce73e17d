import Liquid.Proofs.Rendering.Signals
import Mathlib

/-!
# A template in place of its tag

A template that is rendered among the names around it, with no names of its own, does what its nodes
do at the place of the tag.  It runs behind a frame in which nothing is bound, one level deeper and
at a place of its own, and none of these shows.

**Levels.** Of two renderings of the same nodes, the one that may nest fewer templates does as the
other does until it comes to its limit.

* `Run.Tracks`: a run that comes to the limit of depth, or does as another run does.
* `tracks_nodes`: nodes with fewer levels track the same nodes with more levels.
* `include_inlines`: the tag writes and binds what the nodes of its template write and bind.
-/
namespace Liquid

/-- What a run ends with at the limit of depth. -/
def Run.Refused {α : Type} (r : Except Stop α) : Prop :=
  ∃ e : RenderError, r = .error (.error (.of (.render e))) ∧ e.code = .includeDepth

namespace Run

variable {α β : Type} {engine : Engine} {rel : α → α → Prop} {rel' : β → β → Prop}
  {run run' : Run α} {before : String} {st su : State}

/-- From states that are alike, the first run comes to the limit of depth, or both do alike. -/
def Tracks (engine : Engine) (rel : α → α → Prop) (run run' : Run α) : Prop :=
  ∀ before st su, st.Alike engine before su →
    Refused (run st).1 ∨ Results engine before rel (run st) (run' su)

theorem Matches.tracks (h : Matches engine rel run run') : Tracks engine rel run run' :=
  fun before st su hs => .inr (h before st su hs)

theorem tracks_bind {f f' : α → Run β} (h : Tracks engine rel run run')
    (hf : ∀ x y st st', run st = (.ok x, st') → rel x y → Tracks engine rel' (f x) (f' y)) :
    Tracks engine rel' (run >>= f) (run' >>= f') := by
  intro before st su hs
  rw [bind_apply, bind_apply]
  have hr := h before st su hs
  cases hx : run st with
  | mk r st' =>
    rw [hx] at hr
    rcases hr with ⟨e, rfl, he⟩ | hr
    · exact .inl ⟨e, rfl, he⟩
    · generalize run' su = r' at hr
      cases hr with
      | ok hxy hs => exact hf _ _ _ _ hx hxy before _ _ hs
      | error he hs => exact .inr (.error he hs)

/-! ## What is made of runs -/

section

variable {run run' : Run Unit}

theorem tracks_untilSignal (h : Tracks engine Eq run run') :
    Tracks engine Eq (untilSignal run) (untilSignal run') := by
  intro before st su hs
  have hr := h before st su hs
  unfold untilSignal
  generalize run st = r at hr
  generalize run' su = r' at hr
  rcases hr with ⟨e, hr, he⟩ | hr
  · obtain ⟨_, st'⟩ := r
    cases hr
    exact .inl ⟨e, rfl, he⟩
  · cases hr with
    | ok _ hs => exact .inr (.ok rfl hs)
    | error he hs =>
      cases he with
      | signal signal => exact .inr (.ok rfl hs)
      | error e f => exact .inr (.error (.error e f) hs)

theorem tracks_visitAll {visit visit' : Int → Value → Run Unit}
    (h : ∀ position v, Tracks engine Eq (visit position v) (visit' position v)) (position : Int)
    (items : List Value) :
    Tracks engine Eq (visitAll visit position items) (visitAll visit' position items) := by
  induction items generalizing position with
  | nil => exact (matches_pure rfl).tracks
  | cons v rest ih =>
    refine tracks_bind (tracks_untilSignal (h position v)) ?_
    rintro signal _ - - - rfl
    cases signal with
    | none => exact ih (position + 1)
    | some signal =>
      cases signal with
      | leave => exact (matches_pure rfl).tracks
      | next => exact ih (position + 1)

theorem tracks_forAll {visit visit' : Int → Value → Run Unit}
    (h : ∀ position v, Tracks engine Eq (visit position v) (visit' position v)) (position : Int)
    (items : List Value) :
    Tracks engine Eq (forAll visit position items) (forAll visit' position items) := by
  induction items generalizing position with
  | nil => exact (matches_pure rfl).tracks
  | cons v rest ih =>
    refine tracks_bind (h position v) ?_
    rintro _ _ - - - -
    exact ih (position + 1)

theorem tracks_captured (h : Tracks engine Eq run run') :
    Tracks engine Eq (captured run) (captured run') := by
  intro before st su hs
  have hr := h "" { st with output := "" } { su with output := "" } { hs with output := rfl }
  rw [captured_apply, captured_apply]
  generalize run { st with output := "" } = r at hr
  generalize run' { su with output := "" } = r' at hr
  rcases hr with ⟨e, hr, he⟩ | hr
  · obtain ⟨_, st'⟩ := r
    cases hr
    exact .inl ⟨e, rfl, he⟩
  · cases hr with
    | ok _ hs' =>
      refine .inr (.ok ?_ { hs' with output := hs.output })
      rw [hs'.output, String.empty_append]
    | error he hs' => exact .inr (.error he { hs' with output := hs.output })

theorem tracks_enter (h : Tracks engine Eq run run') (place place' : Option Place) :
    Tracks engine Eq (enter place run) (enter place' run') := by
  intro before st su hs
  have hr := h before { st with line := 0 } { su with line := 0 } { hs with line := rfl }
  rw [enter_apply, enter_apply]
  generalize run { st with line := 0 } = r at hr
  generalize run' { su with line := 0 } = r' at hr
  rcases hr with ⟨e, hr, he⟩ | hr
  · obtain ⟨_, st'⟩ := r
    cases hr
    exact .inl ⟨e, rfl, he⟩
  · cases hr with
    | ok _ hs' => exact .inr (.ok rfl { hs' with line := hs.line })
    | error _ hs' => exact .inr (.error (.error _ _) { hs' with line := hs.line })

theorem tracks_isolate (h : Tracks engine Eq run run') (taken : Nat) :
    Tracks engine Eq (isolate taken run) (isolate taken run') := by
  intro before st su hs
  have hr := h before { st with locals := [], positions := .outside taken }
    { su with locals := [], positions := .outside taken }
    { hs with locals := rfl, positions := rfl }
  unfold isolate
  generalize run { st with locals := [], positions := .outside taken } = r at hr
  generalize run' { su with locals := [], positions := .outside taken } = r' at hr
  rcases hr with ⟨e, hr, he⟩ | hr
  · obtain ⟨_, st'⟩ := r
    cases hr
    exact .inl ⟨e, rfl, he⟩
  · cases hr with
    | ok _ hs' => exact .inr (.ok rfl { hs' with locals := hs.locals, positions := hs.positions })
    | error he hs' =>
      exact .inr (.error he { hs' with locals := hs.locals, positions := hs.positions })

theorem matches_atLine (line : Int) : Matches engine Eq (atLine line) (atLine line) :=
  fun _ _ _ hs => .ok rfl { hs with line := rfl }

end

/-! ## Nodes -/

variable {s s' : Setting} {k k' : Nat}

/-- Two renderers for which each of some nodes tracks itself. -/
def TracksBy (engine : Engine) (renderer renderer' : Renderer) (nodes : List Node) : Prop :=
  ∀ s s' : Setting, s.around.Like s'.around → s.engine = engine → s'.engine = engine →
    Tracks engine Eq (renderer s nodes) (renderer' s' nodes)

theorem tracks_renderTemplate {renderer renderer' : Renderer} {t t' : Loaded}
    (ht : SameTemplate t t') (h : TracksBy engine renderer renderer' t.nodes)
    (hl : s.around.Like s'.around) (he : s.engine = engine) (he' : s'.engine = engine) :
    Tracks engine Eq (renderTemplate renderer s t) (renderTemplate renderer' s' t') := by
  intro before st su hs
  have hn : t.nodes = t'.nodes := congrArg Template.nodes ht
  exact tracks_enter (hn ▸ h _ _ hl he he') (some (placeOf s st.line t))
    (some (placeOf s' su.line t')) before st su hs

/-- The renderers for which the templates that a node names track themselves. -/
def Finds (engine : Engine) (x y : Renderer × Loaded) : Prop :=
  SameTemplate x.2 y.2 ∧ ∀ nodes, TracksBy engine x.1 y.1 nodes

theorem tracks_findTemplate (hl : s.around.Like s'.around) (he : s.engine = engine)
    (he' : s'.engine = engine) (hk : k ≤ k')
    (hlow : ∀ j j', j < k → j ≤ j' → ∀ nodes,
      TracksBy engine (renderNodes (below j)) (renderNodes (below j')) nodes)
    (tag : String) (e : Expr) :
    Tracks engine (Finds engine) (findTemplate (below k) s tag e)
      (findTemplate (below k') s' tag e) := by
  refine tracks_bind (matches_eval hl e).tracks ?_
  rintro v _ - - - rfl
  cases k with
  | zero => exact fun _ st su _ => .inl ⟨_, rfl, rfl⟩
  | succ j =>
    obtain ⟨j', rfl⟩ : ∃ j', k' = j' + 1 := ⟨k' - 1, by omega⟩
    refine tracks_bind (matches_fetch he he' tag _).tracks ?_
    intro t t' _ _ _ ht
    exact (matches_pure ⟨ht, hlow j j' (Nat.lt_succ_self j) (Nat.le_of_succ_le_succ hk)⟩).tracks

theorem tracks_include (hl : s.around.Like s'.around) (he : s.engine = engine)
    (he' : s'.engine = engine)
    (hf : ∀ tag e, Tracks engine (Finds engine) (findTemplate (below k) s tag e)
      (findTemplate (below k') s' tag e))
    (what : Inclusion) (each : Option Expr) :
    Tracks engine Eq (includeTemplate (below k) s what each)
      (includeTemplate (below k') s' what each) := by
  refine tracks_bind (hf "include" what.template) ?_
  rintro ⟨renderer, t⟩ ⟨renderer', t'⟩ - - - ⟨ht, hr⟩
  cases each with
  | none =>
    refine tracks_bind (matches_evalGiven hl what ht).tracks ?_
    rintro bindings _ - - - rfl
    exact tracks_renderTemplate ht (hr _) (hl.push bindings) he he'
  | some e =>
    have ha : aliasIn what t = aliasIn what t' := by
      rw [aliasIn, aliasIn, congrArg Template.name ht]
    refine tracks_bind (matches_beginItems hl what e).tracks ?_
    rintro ⟨bindings, items, l⟩ _ - - - rfl
    refine tracks_forAll (fun position v => ?_) 0 items
    refine tracks_bind (matches_moveTo l position).tracks ?_
    rintro _ _ - - - -
    rw [ha]
    exact tracks_renderTemplate ht (hr _) (hl.push _) he he'

theorem tracks_alone (hl : s.around.Like s'.around) (he : s.engine = engine)
    (he' : s'.engine = engine)
    (hf : ∀ tag e, Tracks engine (Finds engine) (findTemplate (below k) s tag e)
      (findTemplate (below k') s' tag e))
    (what : Inclusion) :
    Tracks engine Eq (renderAlone (below k) s what) (renderAlone (below k') s' what) := by
  refine tracks_bind (hf "render" what.template) ?_
  rintro ⟨renderer, t⟩ ⟨renderer', t'⟩ - - - ⟨ht, hr⟩
  refine tracks_bind (matches_evalGiven hl what ht).tracks ?_
  rintro bindings _ - - - rfl
  have hi : s.around.isolated bindings = s'.around.isolated bindings := hl.isolated bindings
  have hin : (s.within (.isolated bindings)).around.Like (s'.within (.isolated bindings)).around :=
    .of_eq hi
  have hbound := congrArg Surroundings.loopBound hi
  change Tracks engine Eq (isolate (s.around.isolated bindings).loopBound _) _
  rw [hbound]
  exact tracks_isolate (tracks_renderTemplate ht (hr _) hin he he') _

/-- A node whose bodies track themselves tracks itself. -/
theorem tracks_node (htags : ∀ name, engine.tags.get? name = none) (hl : s.around.Like s'.around)
    (he : s.engine = engine) (he' : s'.engine = engine)
    (hf : ∀ tag e, Tracks engine (Finds engine) (findTemplate (below k) s tag e)
      (findTemplate (below k') s' tag e))
    {n : Node} (hb : ∀ body ∈ n.bodies,
      TracksBy engine (renderNodes (below k)) (renderNodes (below k')) body) :
    Tracks engine Eq (renderNode (below k) s n) (renderNode (below k') s' n) := by
  have heng : s.engine = s'.engine := he.trans he'.symm
  cases n with
  | text pos text | raw pos text => exact (matches_write text).tracks
  | comment pos text => exact (matches_pure rfl).tracks
  | output pos e filters left right =>
    cases e with
    | none => exact (matches_pure rfl).tracks
    | some e =>
      rw [renderNode, renderNode]
      refine tracks_bind (matches_evalFiltered hl heng e filters).tracks ?_
      rintro v _ - - - rfl
      exact (matches_write _).tracks
  | conditional pos negated test body branches otherwise =>
    rw [renderNode_conditional, renderNode_conditional]
    refine tracks_bind (matches_chooseBody hl negated test body branches otherwise).tracks ?_
    rintro chosen _ st st' hc rfl
    exact hb chosen (mem_bodies_of_chooseBody hc) s s' hl he he'
  | loop pos head body otherwise =>
    rw [renderNode, renderNode]
    refine tracks_bind (matches_loopItems hl head).tracks ?_
    rintro items _ - - - rfl
    cases items with
    | nil => exact hb otherwise (.tail _ (.head _)) s s' hl he he'
    | cons v rest =>
      refine tracks_bind (matches_look hl).tracks ?_
      intro view view' _ _ _ hv
      have hloop : enclosingLoop view = enclosingLoop view' := by
        rw [enclosingLoop, enclosingLoop, hv]
      rw [hloop]
      refine tracks_bind (matches_beginLoop _ _).tracks ?_
      rintro l _ - - - rfl
      refine tracks_visitAll (fun position v => ?_) 0 (v :: rest)
      refine tracks_bind (matches_moveTo l position).tracks ?_
      rintro _ _ - - - -
      exact hb body (.head _) _ _ (hl.push _) he he'
  | choice pos subject whens otherwise =>
    rw [renderNode_choice, renderNode_choice, bind_assoc, bind_assoc]
    refine tracks_bind (matches_eval hl subject).tracks ?_
    rintro v _ - - - rfl
    refine tracks_bind (matches_chooseWhen hl v otherwise whens).tracks ?_
    rintro chosen _ st st' hc rfl
    exact hb chosen (mem_bodies_of_chooseWhen hc) s s' hl he he'
  | signal pos signal =>
    rw [renderNode, renderNode]
    exact fun _ _ _ hs => .inr (.error (.signal signal) hs)
  | assign pos name e filters =>
    rw [renderNode, renderNode]
    refine tracks_bind (matches_evalFiltered hl heng e filters).tracks ?_
    rintro v _ - - - rfl
    exact (matches_assign name v).tracks
  | capture pos name body =>
    rw [renderNode, renderNode]
    refine tracks_bind (tracks_captured (hb body (.head _) s s' hl he he')) ?_
    rintro text _ - - - rfl
    exact (matches_assign name _).tracks
  | «include» pos what each =>
    rw [renderNode, renderNode]
    exact tracks_include hl he he' hf what each
  | render pos what =>
    rw [renderNode, renderNode]
    exact tracks_alone hl he he' hf what
  | tag pos name arguments body markup =>
    rw [renderNode, renderNode, hostTag, hostTag, he, he', htags]
    exact (matches_unknownTag name).tracks

/-- Nodes that may nest fewer templates come to the limit of depth, or do as the same nodes do that
may nest more. -/
theorem tracks_nodes (htags : ∀ name, engine.tags.get? name = none) (hk : k ≤ k')
    (nodes : List Node) :
    TracksBy engine (renderNodes (below k)) (renderNodes (below k')) nodes := by
  induction k using Nat.strongRecOn generalizing k' nodes with
  | ind k ihk =>
    induction nodes using Node.induction_bodies with
    | h nodes ihb =>
      intro s s' hl he he'
      have hf := tracks_findTemplate hl he he' hk fun j j' hj hjj => ihk j hj hjj
      induction nodes with
      | nil =>
        rw [renderNodes_nil, renderNodes_nil]
        exact (matches_pure rfl).tracks
      | cons n rest ih =>
        obtain ⟨hn, hrest⟩ := List.forall_mem_cons.1 ihb
        rw [renderNodes_cons, renderNodes_cons]
        refine tracks_bind (matches_atLine n.pos.line).tracks ?_
        rintro _ _ - - - -
        refine tracks_bind (tracks_node htags hl he he' hf hn) ?_
        rintro _ _ - - - -
        exact ih hrest

/-! ## The tag -/

variable {e : Expr} {v : Value} {t : Template}

/-- Nodes set their lines themselves. -/
theorem renderNodes_of_line (deeper : Option Renderer) (s : Setting) (nodes : List Node) (st : State)
    (line : Int) :
    (renderNodes deeper s nodes { st with line }).1 = (renderNodes deeper s nodes st).1 ∧
      (renderNodes deeper s nodes { st with line }).2.output =
        (renderNodes deeper s nodes st).2.output ∧
      (renderNodes deeper s nodes { st with line }).2.locals =
        (renderNodes deeper s nodes st).2.locals := by
  cases nodes with
  | nil =>
    rw [renderNodes_nil]
    exact ⟨rfl, rfl, rfl⟩
  | cons n rest =>
    have he : renderNodes deeper s (n :: rest) { st with line } =
        renderNodes deeper s (n :: rest) st := by
      rw [renderNodes_cons, bind_apply, bind_apply]
      rfl
    rw [he]
    exact ⟨rfl, rfl, rfl⟩

/-- A tag without options renders the template that it names behind a frame with nothing in it. -/
theorem include_of_load (h0 : levelsAt s.place ≠ 0) (ha : s.engine.Agrees st.shelf)
    (hv : e.eval (s.view st) s.around.strict = .ok v) (ht : s.engine.load v.toText = .ok t)
    (pos : Position) :
    ∃ u shelf, u.toTemplate = t ∧ s.engine.Agrees shelf ∧
      renderNode (below (levelsAt s.place)) s (.include pos ⟨e, none, none, []⟩ none) st =
        renderTemplate (renderNodes (below (levelsAt s.place - 1))) (s.push []) u
          { st with shelf } := by
  obtain ⟨u, shelf, hf, hu, hs⟩ := find_of_load h0 hv ha ht "include"
  refine ⟨u, shelf, hu, hs, ?_⟩
  rw [renderNode, includeTemplate, findTemplate_below, bind_assoc, bind_of_ok hf]
  rfl

/-- Where no more templates may be nested, the tag is refused. -/
theorem refused_of_full (h0 : levelsAt s.place = 0)
    (hv : e.eval (s.view st) s.around.strict = .ok v) (pos : Position) :
    Refused (renderNode (below (levelsAt s.place)) s (.include pos ⟨e, none, none, []⟩ none) st).1 := by
  have he : eval s e st = (.ok v, st) := by
    rw [eval_apply, hv]
    rfl
  rw [h0, renderNode, includeTemplate, findTemplate, bind_assoc, bind_of_ok he]
  exact ⟨_, rfl, rfl⟩

theorem results_unit {r r' : Except Stop Unit × State} (h : Results engine before Eq r r') :
    r.2.Alike engine before r'.2 ∧ (r.1 = .ok () ↔ r'.1 = .ok ()) := by
  cases h with
  | ok _ hs => exact ⟨hs, iff_of_true rfl rfl⟩
  | error _ hs => exact ⟨hs, iff_of_false (fun h => nomatch h) (fun h => nomatch h)⟩

theorem not_signal_enter (place : Option Place) (run : Run Unit) (st : State) (signal : Signal) :
    (enter place run st).1 ≠ .error (.signal signal) := by
  rw [enter_apply]
  cases (run { st with line := 0 }).1 <;> exact fun h => nomatch h

/-- A template that is entered behind an empty frame, one level deeper, against its nodes. -/
theorem results_inlined (htags : ∀ name, s.engine.tags.get? name = none)
    (hs : st.Alike s.engine before su) (place : Option Place) (nodes : List Node)
    (hl : ¬ Refused (enter place
      (renderNodes (below (levelsAt s.place - 1)) { s.push [] with place } nodes) st).1) :
    let r := enter place (renderNodes (below (levelsAt s.place - 1)) { s.push [] with place } nodes) st
    let r' := renderNodes (below (levelsAt s.place)) s nodes su
    r.2.output = before ++ r'.2.output ∧ r.2.locals = r'.2.locals ∧ (r.1 = .ok () ↔ r'.1 = .ok ()) := by
  intro r r'
  have hlow : TracksBy s.engine (renderNodes (below (levelsAt s.place - 1)))
      (renderNodes (below (levelsAt s.place))) nodes := tracks_nodes htags (Nat.sub_le _ _) nodes
  have ht := hlow { s.push [] with place } s (.push_nil s.around) rfl rfl before
    { st with line := 0 } { su with line := 0 } { hs with line := rfl }
  have hr : r = enter place
      (renderNodes (below (levelsAt s.place - 1)) { s.push [] with place } nodes) st := rfl
  rw [enter_apply] at hr hl
  generalize renderNodes (below (levelsAt s.place - 1)) { s.push [] with place } nodes
    { st with line := 0 } = x at ht hr hl
  obtain ⟨how, st'⟩ := x
  rcases ht with ⟨f, rfl, hf⟩ | ht
  · exact absurd ⟨f, rfl, hf⟩ hl
  · obtain ⟨hst, hok⟩ := results_unit ht
    obtain ⟨hhow, hout, hloc⟩ := renderNodes_of_line (below (levelsAt s.place)) s nodes su 0
    rw [hhow] at hok
    rw [hr]
    refine ⟨hst.output.trans (by rw [hout]), hst.locals.trans hloc, ?_⟩
    rw [← hok]
    cases how with
    | ok _ => exact Iff.rfl
    | error stop => exact iff_of_false (fun h => nomatch h) (fun h => nomatch h)

end Run

open Run

/-- Where no tag of the host is known, a tag that renders a template among the names around it, with
no options, writes what the nodes of the template write at this place and binds what they bind, and
it fails where they fail, unless it comes to the limit of depth.  No signal comes out of either. -/
theorem include_inlines {s : Setting} {st : State} {e : Expr} {v : Value} {t : Template}
    (htags : ∀ name, s.engine.tags.get? name = none) (ha : s.engine.Agrees st.shelf)
    (hv : e.eval (s.view st) s.around.strict = .ok v) (ht : s.engine.load v.toText = .ok t)
    (pos : Position)
    (hl : ¬ Refused
      (renderNode (below (levelsAt s.place)) s (.include pos ⟨e, none, none, []⟩ none) st).1) :
    let included :=
      renderNode (below (levelsAt s.place)) s (.include pos ⟨e, none, none, []⟩ none) st
    let inlined := renderNodes (below (levelsAt s.place)) s t.nodes st
    (∃ text, included.2.output = st.output ++ text ∧ inlined.2.output = st.output ++ text) ∧
      included.2.locals = inlined.2.locals ∧ (included.1 = .ok () ↔ inlined.1 = .ok ()) ∧
      ∀ signal, included.1 ≠ .error (.signal signal) ∧ inlined.1 ≠ .error (.signal signal) := by
  intro included inlined
  have h0 : levelsAt s.place ≠ 0 := fun h0 => hl (refused_of_full h0 hv pos)
  obtain ⟨u, shelf, rfl, hs, hi⟩ := include_of_load h0 ha hv ht pos
  have hi' : included = enter (some (placeOf (s.push []) st.line u))
      (renderNodes (below (levelsAt s.place - 1))
        { s.push [] with place := some (placeOf (s.push []) st.line u) } u.nodes)
      { st with shelf } := hi
  have hl' : ¬ Refused included.1 := hl
  rw [hi'] at hl' ⊢
  have hsame : State.Alike s.engine "" { st with shelf } st :=
    ⟨String.empty_append.symm, rfl, rfl, rfl, hs, ha⟩
  have happ : State.Alike s.engine st.output { st with shelf } { st with output := "" } :=
    ⟨String.append_empty.symm, rfl, rfl, rfl, hs, ha⟩
  obtain ⟨hout, hloc, hok⟩ := results_inlined htags hsame _ u.nodes hl'
  obtain ⟨htext, -, -⟩ := results_inlined htags happ _ u.nodes hl'
  rw [String.empty_append] at hout
  refine ⟨⟨_, htext, hout ▸ htext⟩, hloc, hok, fun signal => ⟨?_, ?_⟩⟩
  · exact not_signal_enter _ _ _ signal
  · have hclosed : Node.Closed u.nodes := (Engine.parsed_of_load ht).closed
    exact Machine.not_signal_of_closed hclosed (fun n t hm => Engine.parsed_of_load (ha n t hm)) signal

namespace Run

open Spelling

/-- The word of an output. -/
def writtenName : Spelling := ofName 'v' [] rfl

/-- The words of an assignment. -/
def assigningWords : List Spelling :=
  [ofName 'a' ['s', 's', 'i', 'g', 'n'] rfl, ofName 'w' [] rfl, ofOperator "=" .assign rfl,
    ofString ['z'] rfl]

/-- The source `{{ v }}{% assign w = "z" %}`. -/
def assigningSource : List Char := written .output [writtenName] ++ written .tag assigningWords

/-- The template with this source. -/
def assigning : Loaded where
  source := String.ofList assigningSource
  name := some "t"
  filename := none
  nodes :=
    [.output ⟨0, 1, 0⟩ (some (.name ⟨3, 1, 3⟩ "v")) [] false false,
      .assign ⟨10, 1, 10⟩ "w" (.const ⟨21, 1, 21⟩ (.text "z")) []]
  number := 0

/-- Where it can be loaded, and a name means something. -/
def assigningSetting : Setting where
  engine := ⟨some (.table [("t", assigning.source)]), {}, {}⟩
  around := ⟨[], [("v", .text "y")], [], false⟩
  place := some { limit := 1 }

/-- The state in which it lies on the shelf. -/
def assigningState : State :=
  { output := "x", shelf := { cache := ⟨1, "", [("t", assigning)], 0, 0⟩ } }

theorem load_assigning : assigningSetting.engine.load "t" = .ok assigning.toTemplate := by
  have hwords : Flows false assigningWords false :=
    flows_cons (by decide) (flows_cons (by decide) (flows_cons (by decide)
      (flows_singleton (by decide))))
  have hname : Flows false [writtenName] false := flows_singleton (by decide)
  have hassign := Lexer.lexemes_written hwords
    (fun _ : Region.tag = Region.tag => ⟨_, _, rfl, by decide, by decide⟩)
    (Lexer.lexemes_nil false) false
  rw [List.append_nil] at hassign
  have hl := Lexer.lexemes_written hname
    (fun h : Region.output = Region.tag => nomatch h) hassign false
  have ht : tokenize assigning.source = .ok _ := tokenize_of_lexemes hl
  have hr : Template.read [] assigning.source (some "t") none = .ok assigning.toTemplate := by
    unfold Template.read
    rw [ht]
    cbv
  have hload : (Loader.table [("t", assigning.source)]).load "t" = .ok ⟨assigning.source, none⟩ :=
    Loader.load_table rfl
  unfold Engine.load
  change (do
    let source ← (Loader.table [("t", assigning.source)]).load "t"
    Engine.read _ source.text (some "t") source.filename) = _
  rw [hload]
  change (Template.read [] assigning.source (some "t") none).mapError _ = _
  rw [hr]
  rfl

/-- The name that the tag gives. -/
def assigningName : Expr := .const ⟨0, 1, 0⟩ (.text "t")

/-- The tag that renders it. -/
def assigningTag : Node := .include ⟨0, 1, 0⟩ ⟨assigningName, none, none, []⟩ none

/-- What the nodes write and bind where the tag stands is what the tag writes and binds. -/
theorem include_inlines_assigning :
    let included := renderNode (below (levelsAt assigningSetting.place)) assigningSetting assigningTag
      assigningState
    included.2.output = "xy" ∧ included.2.locals = [("w", .text "z")] ∧ included.1 = .ok () := by
  have ha : assigningSetting.engine.Agrees assigningState.shelf := by
    intro name t h
    obtain ⟨rfl, rfl⟩ := Prod.mk.inj (List.mem_singleton.1 h)
    exact load_assigning
  have hv : assigningName.eval (assigningSetting.view assigningState) assigningSetting.around.strict =
      .ok (.text "t") := rfl
  have hok : (renderNode (below (levelsAt assigningSetting.place)) assigningSetting assigningTag
      assigningState).1 = .ok () := by
    cbv
  have hl : ¬ Refused (renderNode (below (levelsAt assigningSetting.place)) assigningSetting
      assigningTag assigningState).1 := by
    rintro ⟨e, he, -⟩
    cases hok.symm.trans he
  obtain ⟨⟨text, hincluded, hinlined⟩, hlocals, -, -⟩ :=
    include_inlines (fun _ => rfl) ha hv load_assigning ⟨0, 1, 0⟩ hl
  have hdirect : renderNodes (below (levelsAt assigningSetting.place)) assigningSetting
      assigning.nodes assigningState =
        (.ok (), { assigningState with output := "xy", locals := [("w", .text "z")], line := 1 }) := by
    cbv
  refine ⟨hincluded.trans (hinlined.symm.trans ?_), hlocals.trans ?_, hok⟩
  · exact congrArg (fun r => r.2.output) hdirect
  · exact congrArg (fun r => r.2.locals) hdirect

end Run

end Liquid
