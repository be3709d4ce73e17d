import Liquid.Proofs.Reading.ReadBack
import Liquid.Proofs.Rendering.Reported
import Mathlib

/-!
# Which template a failure is put down to

An error is about the innermost of the templates that are being rendered, and tells through which
others the rendering came there.

* `Machine.failures_report_chain`: every rendering that fails reports the name of the innermost
  template and the chain of those around it, except that the error about a name that means nothing
  leaves the chain out.
-/
namespace Liquid

namespace Machine

open Traced (FailedAt Fails)

variable {env : Environment} {t : Template} {p : Traced} {engine : Engine} {place : Place}
  {cause : Error} {r : RenderError}

/-- What is told of the templates, by the reason of the failure. -/
theorem Reported.chain (h : Reported engine p.machine place cause r)
    (hp : place.template = p.trail.name) (hs : place.stack = p.trail.chain) :
    HostBuilt engine p.machine r ∨
      r.template = p.trail.name ∧ (cause.Undefined → r.stack = []) ∧
        (¬ cause.Undefined → r.stack = p.trail.chain) := by
  have told {line : Int} (ht : r.Tells place line) (hu : ¬ cause.Undefined) :
      r.template = p.trail.name ∧ (cause.Undefined → r.stack = []) ∧
        (¬ cause.Undefined → r.stack = p.trail.chain) :=
    ⟨ht.template.trans hp, fun h => absurd h hu, fun _ => ht.stack.trans hs⟩
  cases h with
  | host h => exact .inl h
  | name hc he hasks hm hcause ht hl hst =>
    refine .inr ⟨ht.trans hp, fun _ => hst, fun hu => absurd ?_ hu⟩
    rw [hcause]
    exact ⟨_, _, _, rfl, rfl⟩
  | filter hc hcall hf hcause ht =>
    refine .inr (told ht ?_)
    rw [hcause]
    exact not_undefined_of_headline rfl (RenderError.headline_at _ _ _ _ _)
  | node hc hu hf ht => exact .inr (told ht hu)
  | tag hc hu ht => exact .inr (told ht hu)

/-- **Failures report the templates.** A rendering that ends with an error has failed at some point
of it, whatever the host answers on the way.  Unless the error is one that the host has built, it
names the innermost of the templates that are being rendered there, a template without a name going
by that of the template around it; and for each of those around, the outermost first, it has the
name and the line of the include or render tag that is executed, if there is a name.  Only the error
about a name that means nothing has nothing of those around. -/
theorem failures_report_chain (ht : t.Parsed) (hs : env.shelf.Parsed) (data : Bindings) :
    (∃ r, Relation.ReflTransGen Traced.Next (Traced.start env t data) r ∧
      r.machine.outcome env = some (env.render t data)) ∧
    ∀ r e env', Relation.ReflTransGen Traced.Next (Traced.start env t data) r →
      r.machine.outcome env = some (.error e, env') →
      (∃ engine p cause, FailedAt engine (Traced.start env t data) p r cause) ∧
      ∀ engine p cause, FailedAt engine (Traced.start env t data) p r cause →
        p.trail.length = p.machine.active + 1 ∧
        (∀ a ∈ p.trail.tail, ∃ n, a.running.head? = some n ∧ n.target?.isSome) ∧
        ∃ report, e.failure = .render report ∧
          (HostBuilt engine p.machine report ∨
            report.template = p.trail.name ∧ (cause.Undefined → report.stack = []) ∧
              (¬ cause.Undefined → report.stack = p.trail.chain)) := by
  refine ⟨Traced.run_render env t data, fun r e env' hr ho => ⟨?_, fun engine p cause hf => ?_⟩⟩
  · exact Traced.exists_failedAt ht hs hr ho
  · obtain ⟨htracks, place, report, hplace, he, hrep⟩ := hf.reported ht hs ho
    obtain ⟨fresh, hstep⟩ := htracks.inStep
    obtain ⟨place', hp, hname, hchain⟩ := htracks.place
    obtain rfl := Option.some.inj (hplace.symm.trans hp)
    exact ⟨hstep.length_eq, hstep.around, report, he, hrep.chain hname hchain⟩

/-! ## A name that means nothing, in a template that another includes -/

section

open Spelling

/-- The name that means nothing. -/
def missingWord : Spelling := ofName 'm' ['i', 's', 's', 'i', 'n', 'g'] rfl

/-- The source `{{ missing }}`. -/
def missingSource : List Char := written .output [missingWord]

/-- The template with this source, as it is loaded. -/
def missingPart : Loaded where
  source := String.ofList missingSource
  name := some "part"
  filename := none
  nodes := [.output ⟨0, 1, 0⟩ (some (.name ⟨3, 1, 3⟩ "missing")) [] false false]
  number := 0

/-- The words of a tag that includes it. -/
def includingWords : List Spelling :=
  [ofName 'i' ['n', 'c', 'l', 'u', 'd', 'e'] rfl, ofString ['p', 'a', 'r', 't'] rfl]

/-- The source `{% include "part" %}`. -/
def includingSource : List Char := written .tag includingWords

/-- The tag. -/
def includingTag : Node :=
  .include ⟨3, 1, 3⟩ ⟨.const ⟨11, 1, 11⟩ (.text "part"), none, none, []⟩ none

/-- A template with nothing but the tag. -/
def includingPage : Template where
  source := String.ofList includingSource
  name := some "page"
  filename := none
  nodes := [includingTag]

/-- An environment in which names must mean something and nothing does, with the included template
on its shelf. -/
def includingSample : Environment where
  engine := { loader := some (.table [("part", missingPart.source)]), filters := {}, tags := {} }
  globals := []
  strict := true
  maxDepth := 1
  shelf := { cache := ⟨1, "", [("part", missingPart)], 0, 0⟩, loads := 1 }

theorem parsed_includingPage : includingPage.Parsed := by
  have hflows : Flows false includingWords false :=
    flows_cons (by decide) (flows_singleton (by decide))
  have hl := Lexer.lexemes_written hflows
    (fun _ : Region.tag = Region.tag => ⟨_, _, rfl, by decide, by decide⟩)
    (Lexer.lexemes_nil false) false
  rw [List.append_nil] at hl
  refine ⟨[], String.ofList includingSource, ?_⟩
  rw [includingSource, parse_of_tokenize (tokenize_of_lexemes hl)]
  exact (Reading.readNodes_adds rfl rfl (by cbv) (Reading.returns_of_map (by cbv))).trans
    (Reading.readNodes_eof rfl)

theorem parsed_missingPart : missingPart.toTemplate.Parsed := by
  have hl := Lexer.lexemes_written (flows_singleton (w := missingWord) (by decide))
    (fun h : Region.output = Region.tag => Region.noConfusion h) (Lexer.lexemes_nil false) false
  rw [List.append_nil] at hl
  refine ⟨[], String.ofList missingSource, ?_⟩
  unfold parse
  rw [missingSource, tokenize_of_lexemes hl]
  cbv

theorem parsed_includingSample : includingSample.shelf.Parsed := by
  intro name t h
  obtain ⟨rfl, rfl⟩ := Prod.mk.inj (List.mem_singleton.1 h)
  exact parsed_missingPart

/-- The rendering of the page where it comes to the name, four steps from the beginning. -/
def missingFailing : Traced :=
  Traced.after includingSample.engine 4 (Traced.start includingSample includingPage [])

/-- The rendering one step later. -/
def missingFailed : Traced := Traced.after includingSample.engine 1 missingFailing

/-- The error about the name. -/
def missingError : Error := Expr.undefinedName missingFailing.machine.view "missing" 1

theorem fails_missing :
    Fails includingSample.engine missingFailing missingFailed missingError where
  step := rfl
  trail := rfl
  busy _ := Control.noConfusion
  ended := rfl

/-- The name fails in the template that the page includes, and then the rendering ends. -/
theorem failedAt_missing : ∃ r env',
    FailedAt includingSample.engine (Traced.start includingSample includingPage []) missingFailing r
        missingError ∧
      r.machine.outcome includingSample = some (.error missingError, env') :=
  ⟨Traced.after includingSample.engine 4 missingFailed, _,
    ⟨missingFailed, Traced.run_after _ 4 _, fails_missing, Traced.run_after _ 4 _⟩, rfl⟩

/-- The error is reported, with the name of the included template. -/
theorem failures_report_chain_missing :
    includingPage.Parsed ∧ includingSample.shelf.Parsed ∧ ∃ r : Traced, ∃ env',
      r.machine.outcome includingSample = some (.error missingError, env') ∧
      missingFailing.trail.length = missingFailing.machine.active + 1 ∧
      ∃ report, missingError.failure = .render report ∧
        (HostBuilt includingSample.engine missingFailing.machine report ∨
          report.template = missingFailing.trail.name ∧ (missingError.Undefined → report.stack = []) ∧
            (¬ missingError.Undefined → report.stack = missingFailing.trail.chain)) := by
  obtain ⟨r, env', hfailed, ho⟩ := failedAt_missing
  obtain ⟨hlength, -, hreport⟩ :=
    ((failures_report_chain parsed_includingPage parsed_includingSample []).2 r missingError env'
      hfailed.run ho).2 _ _ _ hfailed
  exact ⟨parsed_includingPage, parsed_includingSample, r, env', ho, hlength, hreport⟩

/-- But it does not tell that the page includes that template. -/
theorem not_always_chain :
    ¬ ∀ p r cause e env' report,
      FailedAt includingSample.engine (Traced.start includingSample includingPage []) p r cause →
        r.machine.outcome includingSample = some (.error e, env') → e.failure = .render report →
          HostBuilt includingSample.engine p.machine report ∨
            report.template = p.trail.name ∧ report.stack = p.trail.chain := by
  intro h
  obtain ⟨r, env', hfailed, ho⟩ := failedAt_missing
  have hc : missingFailing.machine.control =
      .node (.output ⟨0, 1, 0⟩ (some (.name ⟨3, 1, 3⟩ "missing")) [] false false) := rfl
  have hchain : missingFailing.trail.chain = [("page", 1)] := rfl
  rcases h _ r _ _ env' _ hfailed ho rfl with hbuilt | ⟨-, hstack⟩
  · cases hbuilt with
    | filter hn hcall =>
      rw [hc] at hn
      cases hn
      cases hcall
    | tag hp =>
      rw [hc] at hp
      cases hp
  · rw [hchain] at hstack
    cases hstack

end

end Machine

end Liquid
