import Liquid.Proofs.Rendering.Trail

/-!
# From a failure to the end of a rendering

Where something fails, everything that waits is put away until nothing is left, and no error is ever
held back.  On the way an error may be said to be one of a tag, and where the template ends in which
it came up, it is given the place and the line there, unless it has its own.  So the error that the
host gets tells of the point of failure, however many templates, loops and tags lie between.

* `Traced.FailedAt`: a rendering has failed at some point, in a node or in a tag of the host.
* `exists_passes`, `Traced.Fails.carried`: what becomes of an error on its way.
* `Traced.exists_failedAt`: every rendering that ends with an error has failed at some point.
* `Traced.FailedAt.told`: what the host gets of a failure.
-/
namespace Liquid

namespace Machine

variable {engine : Engine} {m m' p : Machine} {cause e : Error}

/-- What has become of an error that came up at one point, at another: it has said where it happened
from the beginning, or it is still in the template in which it came up, or it was given its place
there. -/
inductive Carried (p : Machine) (cause : Error) (m : Machine) (e : Error) : Prop where
  | placed {r : RenderError} :
    cause.failure = .render r → e.failure = .render r → Carried p cause m e
  | inside :
    cause.Unplaced → e.Unplaced → m.place = p.place → m.state.line = p.state.line →
    Carried p cause m e
  | positioned {text : String} {code : Code} :
    cause.Unplaced → e.failure = .render (.at p.place p.state.line text code none) →
    Carried p cause m e

/-- What the end of something does to an error: it may be said to be one of a tag, or it is given
the place there. -/
def Passes (m m' : Machine) (e e' : Error) : Prop :=
  (m'.place = m.place ∧ m'.state.line = m.state.line ∧ (e' = e ∨ ∃ tag, e' = e.withinTag tag)) ∨
    e' = e.positioned m.place m.state.line

theorem Carried.pass {e' : Error} (h : Carried p cause m e) (hp : Passes m m' e e') :
    Carried p cause m' e' := by
  rcases hp with ⟨hplace, hline, rfl | ⟨tag, rfl⟩⟩ | rfl
  · cases h with
    | placed hc he => exact .placed hc he
    | inside hc he hp hl => exact .inside hc he (hplace.trans hp) (hline.trans hl)
    | positioned hc he => exact .positioned hc he
  · cases h with
    | placed hc he => exact .placed hc (Error.withinTag_render he tag)
    | inside hc he hp hl => exact .inside hc (he.withinTag tag) (hplace.trans hp) (hline.trans hl)
    | positioned hc he => exact .positioned hc (Error.withinTag_render he tag)
  · cases h with
    | placed hc he => exact .placed hc (Error.positioned_failure he _ _)
    | inside hc he hp hl =>
      obtain ⟨text, code, ht⟩ := he.positioned m.place m.state.line
      rw [hp, hl] at ht
      rw [hp, hl]
      exact .positioned hc ht
    | positioned hc he => exact .positioned hc (Error.positioned_failure he _ _)

/-- What waits does not go on after an error, and the error passes it. -/
theorem exists_passes (m : Machine) (f : Frame) (e : Error) :
    ∃ e', (m.resume (.error (.error e)) f).control = .ended (.error (.error e')) ∧
      Passes m (m.resume (.error (.error e)) f) e e' := by
  cases f with
  | template place line => exact ⟨_, rfl, .inr rfl⟩
  | host tag body next output => exact ⟨_, rfl, .inl ⟨rfl, rfl, .inr ⟨tag, rfl⟩⟩⟩
  | visits | items | behind | captured | block | isolation =>
    exact ⟨e, rfl, .inl ⟨rfl, rfl, .inl rfl⟩⟩

theorem passes_step (hc : m.control = .ended (.error (.error e))) (hm : m.step engine = some m') :
    ∃ e', m'.control = .ended (.error (.error e')) ∧ Passes m m' e e' := by
  unfold step at hm
  rw [hc] at hm
  dsimp only at hm
  split at hm
  · cases hm
  · rename_i f rest hst
    cases hm
    exact exists_passes { m with stack := rest } f e

/-- Only an error makes an error when what waits goes on. -/
theorem error_of_resume {f : Frame} {how : Except Stop Unit}
    (hs : ∀ signal, how = .error (.signal signal) → f.isTemplate = false)
    (he : (m.resume how f).control = .ended (.error (.error e))) :
    ∃ e₀, how = .error (.error e₀) := by
  rcases how with (signal | e₀) | _
  · have hf := hs signal rfl
    cases f with
    | template place line => cases hf
    | visits l target body position items => cases signal <;> cases items <;> cases he
    | _ => cases he
  · exact ⟨e₀, rfl⟩
  · cases f with
    | visits l target body position items => cases items <;> cases he
    | items l called t position items => cases items <;> cases he
    | _ => cases he

/-- When something goes wrong behind an end, it was an error that had ended it. -/
theorem error_of_step (hcaught : m.Caught) {how : Except Stop Unit} (hc : m.control = .ended how)
    (hm : m.step engine = some m') (he : m'.control = .ended (.error (.error e))) :
    ∃ e₀, m.control = .ended (.error (.error e₀)) := by
  unfold step at hm
  rw [hc] at hm
  dsimp only at hm
  split at hm
  · cases hm
  · rename_i f rest hst
    cases hm
    have hf := hcaught.follows
    rw [hc, hst] at hf
    have hsignal (signal : Signal) (hh : how = .error (.signal signal)) :
        f.isTemplate = false := by
      subst hh
      cases f with
      | template | items => cases hf
      | _ => rfl
    obtain ⟨e₀, rfl⟩ := error_of_resume hsignal he
    exact ⟨e₀, hc⟩

/-- Only a node and a step of a tag of the host come to a failure by themselves. -/
theorem fails_cases (hs : m.state.shelf.Parsed) (hm : m.step engine = some m')
    (hb : ∀ how, m.control ≠ .ended how) (he : m'.control = .ended (.error (.error e))) :
    (m'.place = m.place ∧ m'.state.line = m.state.line) ∧
      ((∃ n, m.control = .node n ∧ Reason engine m.view n e) ∨
        ∃ tag body e₀ pending, m.control = .program tag body (.fail e₀) pending ∧
          e = e₀.withinTag tag) := by
  unfold step at hm
  split at hm
  case h_1 => cases hm; cases he
  case h_2 => cases hm; cases he
  case h_3 n hc =>
    cases hm
    have hl := led_node hs engine n
    exact ⟨⟨hl.place, hl.line⟩, .inl ⟨n, hc, hl.reason e he⟩⟩
  case h_4 => cases hm; cases he
  case h_5 tag body p pending hc =>
    cases hm
    cases p with
    | fail e₀ => cases he; exact ⟨⟨rfl, rfl⟩, .inr ⟨tag, body, e₀, pending, hc, rfl⟩⟩
    | done v => cases pending <;> cases he
    | look next | assign name v next => cases he
    | body where_ next =>
      cases pending with
      | some signal => cases he
      | none => cases where_ <;> cases he
  case h_6 how hc => exact absurd hc (hb how)

end Machine

namespace Traced

open Machine

/-- Something fails at one point with an error, and the rendering goes on at the other. -/
structure Fails (engine : Engine) (p q : Traced) (cause : Error) : Prop where
  step : p.machine.step engine = some q.machine
  trail : q.trail = p.trail.next p.machine
  busy : ∀ how, p.machine.control ≠ .ended how
  ended : q.machine.control = .ended (.error (.error cause))

/-- A rendering that comes from one point to another has failed with an error between them. -/
def FailedAt (engine : Engine) (s p r : Traced) (cause : Error) : Prop :=
  ∃ q, Relation.ReflTransGen Next s p ∧ Fails engine p q cause ∧ Relation.ReflTransGen Next q r

variable {env : Environment} {engine : Engine} {t : Template} {data : Bindings} {p q r : Traced}
  {cause e : Error}

theorem Fails.next (h : Fails engine p q cause) : Next p q := ⟨⟨engine, h.step⟩, h.trail⟩

theorem FailedAt.run {s : Traced} (h : FailedAt engine s p r cause) :
    Relation.ReflTransGen Next s r := by
  obtain ⟨q, hp, hfails, hq⟩ := h
  exact (hp.tail hfails.next).trans hq

/-- Where something has failed, the rendering comes to nothing but its end, with what has become of
the error. -/
theorem Fails.carried (h : Fails engine p q cause) (hp : p.machine.state.shelf.Parsed)
    (hr : Relation.ReflTransGen Next q r) :
    ∃ e, r.machine.control = .ended (.error (.error e)) ∧
      Carried p.machine cause r.machine e := by
  induction hr with
  | refl =>
    obtain ⟨⟨hplace, hline⟩, -⟩ := fails_cases hp h.step h.busy h.ended
    refine ⟨cause, h.ended, ?_⟩
    rcases cause.unplaced_or_render with hu | ⟨report, hrep⟩
    · exact .inside hu hu hplace hline
    · exact .placed hrep hrep
  | tail _ hn ih =>
    obtain ⟨⟨engine', hm⟩, -⟩ := hn
    obtain ⟨e, hc, hcar⟩ := ih
    obtain ⟨e', hc', hpass⟩ := passes_step hc hm
    exact ⟨e', hc', hcar.pass hpass⟩

/-- An error does not come up at the end of something: the rendering has failed at some point. -/
theorem exists_failedAt_of_ended (ht : t.Parsed) (hs : env.shelf.Parsed)
    (hr : Relation.ReflTransGen Next (start env t data) r)
    (he : r.machine.control = .ended (.error (.error e))) :
    ∃ engine p cause, FailedAt engine (start env t data) p r cause := by
  induction hr generalizing e with
  | refl => cases he
  | @tail r₀ r hr hn ih =>
    obtain ⟨⟨engine, hm⟩, htrail⟩ := hn
    obtain ⟨hcaught, -⟩ := tracks_run ht hs hr
    by_cases hb : ∃ how, r₀.machine.control = .ended how
    · obtain ⟨how, hc⟩ := hb
      obtain ⟨e₀, hc₀⟩ := error_of_step hcaught hc hm he
      obtain ⟨engine', p, cause, q, hp, hfails, hq⟩ := ih hc₀
      exact ⟨engine', p, cause, q, hp, hfails, hq.tail ⟨⟨engine, hm⟩, htrail⟩⟩
    · have hbusy (how : Except Stop Unit) : r₀.machine.control ≠ .ended how :=
        fun hc => hb ⟨how, hc⟩
      exact ⟨engine, r₀, e, r, hr, ⟨hm, htrail, hbusy, he⟩, .refl⟩

/-- A rendering that ends with an error for the host has ended with an error. -/
theorem ended_of_outcome (ht : t.Parsed) (hs : env.shelf.Parsed)
    (hr : Relation.ReflTransGen Next (start env t data) r) {env' : Environment}
    (ho : r.machine.outcome env = some (.error e, env')) :
    ∃ e₀, r.machine.control = .ended (.error (.error e₀)) ∧
      e = e₀.positioned r.machine.place r.machine.state.line := by
  obtain ⟨hcaught, -⟩ := tracks_run ht hs hr
  unfold outcome at ho
  split at ho
  · rename_i how hc hst
    have hf := hcaught.follows
    rw [hc, hst] at hf
    rcases how with (signal | e₀) | _
    · cases hf
    · cases ho
      exact ⟨e₀, hc, rfl⟩
    · cases ho
  · cases ho

/-- A rendering that ends with an error for the host has failed at some point. -/
theorem exists_failedAt (ht : t.Parsed) (hs : env.shelf.Parsed)
    (hr : Relation.ReflTransGen Next (start env t data) r) {env' : Environment}
    (ho : r.machine.outcome env = some (.error e, env')) :
    ∃ engine p cause, FailedAt engine (start env t data) p r cause := by
  obtain ⟨e₀, hc, -⟩ := ended_of_outcome ht hs hr ho
  exact exists_failedAt_of_ended ht hs hr hc

/-- What the host gets says where the rendering has failed, unless the error there has said so
itself. -/
theorem FailedAt.told (h : FailedAt engine (start env t data) p r cause) (ht : t.Parsed)
    (hs : env.shelf.Parsed) {env' : Environment}
    (ho : r.machine.outcome env = some (.error e, env')) :
    ∃ report, e.failure = .render report ∧
      (cause.failure = .render report ∨ cause.Unplaced ∧
        ∃ text code, report = .at p.machine.place p.machine.state.line text code none) := by
  obtain ⟨e₀, hc, rfl⟩ := ended_of_outcome ht hs h.run ho
  obtain ⟨q, hp, hfails, hq⟩ := h
  obtain ⟨hcaught, -⟩ := tracks_run ht hs hp
  obtain ⟨e₁, hc₁, hcar⟩ := hfails.carried hcaught.shelf hq
  obtain rfl : e₁ = e₀ := by
    rw [hc] at hc₁
    cases hc₁
    rfl
  have hpass : Passes r.machine r.machine e₁
      (e₁.positioned r.machine.place r.machine.state.line) := .inr rfl
  cases hcar.pass hpass with
  | placed hp he => exact ⟨_, he, .inl hp⟩
  | inside _ hu _ _ =>
    obtain ⟨report, hrep⟩ := e₁.exists_positioned r.machine.place r.machine.state.line
    exact absurd hrep (hu report)
  | positioned hu he => exact ⟨_, he, .inr ⟨hu, _, _, rfl⟩⟩

end Traced

end Liquid
