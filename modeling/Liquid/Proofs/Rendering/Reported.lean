import Liquid.Proofs.Rendering.Unwinding

/-!
# What the host is told of a failure

The error that a rendering ends with names a template, a line and the templates around.  Which line
that is depends on the reason: a name that means nothing and a filter that is not known are told by
their own lines, everything else by the line that the rendering has come to.  Of what a filter or a
tag of the host says itself nothing is known.

* `HostBuilt`: an error of rendering that the host has built.
* `Reported`: what an error tells, by the reason of the failure.
* `Traced.FailedAt.reported`: a rendering that has failed tells of it in one of these ways.
-/
namespace Liquid

/-- An error that tells of a line at a place. -/
structure RenderError.Tells (r : RenderError) (p : Place) (line : Int) : Prop where
  template : r.template = p.template
  line : r.line = Place.lineNumber? line
  stack : r.stack = p.stack

theorem RenderError.tells_at {place : Option Place} {p : Place} (hp : place = some p) (line : Int)
    (text : String) (code : Code) (hint : Option String) :
    (RenderError.at place line text code hint).Tells p line := by
  subst hp
  exact ⟨rfl, rfl, rfl⟩

theorem RenderError.headline_at (place : Option Place) (line : Int) (text : String) (code : Code)
    (hint : Option String) : (RenderError.at place line text code hint).headline = .plain text := by
  cases place <;> rfl

theorem RenderError.code_at (place : Option Place) (line : Int) (text : String) (code : Code)
    (hint : Option String) : (RenderError.at place line text code hint).code = code := by
  cases place <;> rfl

namespace Machine

/-- A filter of the host, or a tag of the host, fails at this point with an error of rendering that
it has built itself.  What the filters of the language fail with does not count. -/
inductive HostBuilt (engine : Engine) (m : Machine) (r : RenderError) : Prop where
  | filter {n : Node} {call : FilterCall} {f : FilterFunction} {v : Value} {a : Arguments}
      {cause : Option Error} :
    m.control = .node n → call ∈ n.calls → engine.filters.get? call.name = some f →
    (∀ now name, (name, f) ∉ Environment.languageFilters now) →
    f v a = .error ⟨.render r, cause⟩ → HostBuilt engine m r
  | tag {tag : String} {body : List Node} {pending : Option Signal} {cause : Option Error} :
    m.control = .program tag body (.fail ⟨.render r, cause⟩) pending → HostBuilt engine m r

/-- What an error tells of a failure, by the reason of it. -/
inductive Reported (engine : Engine) (m : Machine) (p : Place) (cause : Error) (r : RenderError) :
    Prop where
  | host : HostBuilt engine m r → Reported engine m p cause r
  | name {n : Node} {e : Expr} {pos : Position} {name : String} :
    m.control = .node n → e ∈ n.exprs → e.Asks m.view true pos name → m.scope.Missing name →
    cause = Expr.undefinedName m.view name pos.line → r.template = p.template →
    r.line = some (pos.line : Int) → r.stack = [] → Reported engine m p cause r
  | filter {n : Node} {call : FilterCall} :
    m.control = .node n → call ∈ n.calls → engine.filters.get? call.name = none →
    cause = call.unknown m.view engine.filters → r.Tells p call.pos.line →
    Reported engine m p cause r
  | node {n : Node} :
    m.control = .node n → ¬ cause.Undefined →
    (∀ call : FilterCall, cause ≠ call.unknown m.view engine.filters) →
    r.Tells p m.state.line → Reported engine m p cause r
  | tag {tag : String} {body : List Node} {e : Error} {pending : Option Signal} :
    m.control = .program tag body (.fail e) pending → ¬ cause.Undefined →
    r.Tells p m.state.line → Reported engine m p cause r

variable {engine : Engine} {m : Machine} {p : Place} {cause : Error} {r : RenderError} {n : Node}

theorem not_unknown_of_unplaced (hu : cause.Unplaced) (call : FilterCall) :
    cause ≠ call.unknown m.view engine.filters :=
  fun he => hu _ (congrArg Error.failure he)

theorem not_unknown_of_code (hr : cause.failure = .render r) (hc : r.code ≠ .unknownFilter)
    (call : FilterCall) : cause ≠ call.unknown m.view engine.filters := by
  rintro rfl
  cases hr
  exact hc (RenderError.code_at _ _ _ _ _)

theorem not_undefined_of_headline {text : String} (hr : cause.failure = .render r)
    (hh : r.headline = .plain text) : ¬ cause.Undefined := by
  rintro ⟨r', name, meant, hr', hu⟩
  obtain rfl := Failure.render.inj (hr.symm.trans hr')
  exact Headline.noConfusion (hh.symm.trans hu)

theorem not_undefined_of_unplaced (hu : cause.Unplaced) : ¬ cause.Undefined := by
  rintro ⟨report, name, meant, hr, -⟩
  exact hu report hr

/-- The error was given its place, or it says itself where it happened. -/
def Given (m : Machine) (cause : Error) (r : RenderError) : Prop :=
  cause.failure = .render r ∨
    cause.Unplaced ∧ ∃ text code, r = .at m.place m.state.line text code none

/-- An error that does not say where it happened is given the line that the rendering has come
to. -/
theorem Given.tells (hg : Given m cause r) (hu : cause.Unplaced) (hp : m.place = some p) :
    r.Tells p m.state.line := by
  rcases hg with hr | ⟨-, text, code, rfl⟩
  · exact absurd hr (hu r)
  · exact RenderError.tells_at hp _ _ _ _

theorem Given.node (hg : Given m cause r) (hu : cause.Unplaced) (hp : m.place = some p)
    (hc : m.control = .node n) : Reported engine m p cause r :=
  .node hc (not_undefined_of_unplaced hu) (not_unknown_of_unplaced hu) (hg.tells hu hp)

/-- An error of rendering is not given a place again. -/
theorem Given.eq {r' : RenderError} (hg : Given m cause r) (hr : cause.failure = .render r') :
    r = r' := by
  rcases hg with hr' | ⟨hu, -⟩
  · rw [hr] at hr'
    exact (Failure.render.inj hr').symm
  · exact absurd hr (hu r')

/-- What is told of a filter that fails. -/
theorem reported_filter {call : FilterCall} {f : FilterFunction} {v : Value} {a : Arguments}
    {e : Error} (hp : m.place = some p) (hc : m.control = .node n) (hcall : call ∈ n.calls)
    (hf : engine.filters.get? call.name = some f) (he : f v a = .error e)
    (hg : Given m (e.withinFilter call.name) r) :
    Reported engine m p (e.withinFilter call.name) r := by
  rcases e.unplaced_or_render with hu | ⟨r', hr'⟩
  · exact hg.node (hu.withinFilter call.name) hp hc
  · have hlang (now : DateTime) (name : String) : (name, f) ∉ Environment.languageFilters now :=
      fun hl => Environment.unplaced_languageFilters hl v a e he r' hr'
    rw [Error.withinFilter_render hr'] at hg
    obtain rfl := hg.eq hr'
    obtain ⟨failure, cause⟩ := e
    cases hr'
    exact .host (.filter hc hcall hf hlang he)

/-- What is told of a node that fails, by the reason. -/
theorem reported_reason (hp : m.place = some p) (hc : m.control = .node n)
    (hr : Reason engine m.view n cause) (hg : Given m cause r) : Reported engine m p cause r := by
  have hv : m.view.place = some p := hp
  cases hr with
  | @name e pos name he hasks hm =>
    obtain rfl := hg.eq rfl
    refine .name hc he hasks hm rfl ?_ rfl rfl
    simp only [RenderError.undefined, hv, Option.bind_some]
  | unknownFilter hcall hf =>
    obtain rfl := hg.eq rfl
    exact .filter hc hcall hf rfl (RenderError.tells_at hv _ _ _ _)
  | filter hcall hf he => exact reported_filter hp hc hcall hf he hg
  | depth ht hpl hd =>
    obtain rfl := hg.eq rfl
    obtain rfl := Option.some.inj (hpl.symm.trans hv)
    exact .node hc (not_undefined_of_headline rfl rfl) (not_unknown_of_code rfl Code.noConfusion)
      ⟨rfl, rfl, rfl⟩
  | loading ht hl =>
    exact hg.node (Error.Unplaced.askedBy (Engine.unplaced_fetch _ _ _ _ hl) _) hp hc
  | unknownTag hn ht =>
    obtain rfl := hg.eq rfl
    refine .node hc (not_undefined_of_headline rfl (RenderError.headline_at _ _ _ _ _))
      (not_unknown_of_code rfl ?_) (RenderError.tells_at hv _ _ _ _)
    rw [RenderError.code_at]
    exact Code.noConfusion
  | fault f => exact hg.node (Error.unplaced_ofFault f) hp hc

/-- What is told of a tag of the host that fails. -/
theorem reported_program {tag : String} {body : List Node} {e : Error} {pending : Option Signal}
    (hp : m.place = some p) (hc : m.control = .program tag body (.fail e) pending)
    (hg : Given m (e.withinTag tag) r) : Reported engine m p (e.withinTag tag) r := by
  rcases e.unplaced_or_render with hu | ⟨r', hr'⟩
  · have hu := hu.withinTag tag
    exact .tag hc (not_undefined_of_unplaced hu) (hg.tells hu hp)
  · obtain rfl := hg.eq (Error.withinTag_render hr' tag)
    obtain ⟨failure, cause⟩ := e
    cases hr'
    exact .host (.tag hc)

end Machine

namespace Traced

open Machine

variable {env : Environment} {engine : Engine} {t : Template} {data : Bindings} {p r : Traced}
  {cause e : Error}

/-- With a host that keeps to its answers, a rendering with its trail ends as `render` says. -/
theorem run_render (env : Environment) (t : Template) (data : Bindings) :
    ∃ r, Relation.ReflTransGen Next (start env t data) r ∧
      r.machine.outcome env = some (env.render t data) := by
  obtain ⟨m, hm, ho⟩ := steps_render env t data
  have hn : Relation.ReflTransGen Machine.Next (Machine.start env t data) m :=
    Relation.ReflTransGen.mono (fun _ _ h => ⟨env.engine, h⟩) _ _ hm
  obtain ⟨r, hr, rfl⟩ := exists_run hn [⟨t, [], none⟩]
  exact ⟨r, hr, ho⟩

/-- A rendering that has failed at some point tells of it by the reason of the failure there. -/
theorem FailedAt.reported (h : FailedAt engine (start env t data) p r cause) (ht : t.Parsed)
    (hs : env.shelf.Parsed) {env' : Environment}
    (ho : r.machine.outcome env = some (.error e, env')) :
    p.machine.Tracks p.trail ∧ ∃ place report, p.machine.place = some place ∧
      e.failure = .render report ∧ Reported engine p.machine place cause report := by
  obtain ⟨report, he, hg⟩ := h.told ht hs ho
  obtain ⟨q, hp, hfails, -⟩ := h
  obtain ⟨hcaught, htracks⟩ := tracks_run ht hs hp
  obtain ⟨place, hplace, -, -⟩ := htracks.place
  refine ⟨htracks, place, report, hplace, he, ?_⟩
  obtain ⟨-, ⟨n, hc, hreason⟩ | ⟨tag, body, e₀, pending, hc, rfl⟩⟩ :=
    fails_cases hcaught.shelf hfails.step hfails.busy hfails.ended
  · exact reported_reason hplace hc hreason hg
  · exact reported_program hplace hc hg

end Traced

end Liquid
