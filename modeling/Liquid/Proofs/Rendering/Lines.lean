import Liquid.Proofs.Rendering.Reported
import Mathlib

/-!
# Which line a failure is put down to

The line of an error is that of the innermost node that is executed where the rendering fails, with
two exceptions that the language means, and a third that comes from how lines are kept: a node that
has had a body rendered is not on its own line any more.  Only a tag of the host can still fail
then.

* `Blamed`: the line, by what has failed.
* `Machine.failures_report_line`: every rendering that fails reports this line.
-/
namespace Liquid

open Machine

/-- The line that a failure is put down to: for a name that means nothing and for a filter that is
not known their own, for every other failure of a node that of the node, and for a tag of the host
that fails itself that of the node begun last: the tag, or the last node of its body. -/
inductive Blamed (engine : Engine) (p : Traced) (cause : Error) : Nat → Prop where
  | name {n : Node} {e : Expr} {pos : Position} {name : String} :
    p.machine.control = .node n → e ∈ n.exprs → e.Asks p.machine.view true pos name →
    p.machine.scope.Missing name → cause = Expr.undefinedName p.machine.view name pos.line →
    Blamed engine p cause pos.line
  | filter {n : Node} {call : FilterCall} :
    p.machine.control = .node n → call ∈ n.calls → engine.filters.get? call.name = none →
    cause = call.unknown p.machine.view engine.filters → Blamed engine p cause call.pos.line
  | node {n : Node} :
    p.machine.control = .node n → p.trail.node? = some n → ¬ cause.Undefined →
    (∀ call : FilterCall, cause ≠ call.unknown p.machine.view engine.filters) →
    Blamed engine p cause n.pos.line
  | tag {tag : String} {body : List Node} {e : Error} {pending : Option Signal} {n : Node} :
    p.machine.control = .program tag body (.fail e) pending → p.trail.Runs tag →
    p.trail.latest? = some n → Blamed engine p cause n.pos.line

namespace Machine

open Traced (FailedAt Fails)

variable {env : Environment} {t : Template} {p : Traced} {engine : Engine} {place : Place}
  {cause : Error} {r : RenderError}

theorem lineNumber?_of_pos {line : Nat} (h : 0 < line) :
    Place.lineNumber? (line : Int) = some (line : Int) :=
  if_neg (Int.natCast_ne_zero.2 (Nat.ne_of_gt h))

/-- The line that is told is the one of the node begun last. -/
theorem Tracks.tells_line (h : p.machine.Tracks p.trail)
    (ht : r.Tells place p.machine.state.line) {n : Node} (hn : p.trail.latest? = some n)
    (hpos : 0 < n.pos.line) : r.line = some (n.pos.line : Int) := by
  have hl : p.machine.state.line = (n.pos.line : Int) := by
    rw [h.line, Trail.line, hn]
    rfl
  rw [ht.line, hl, lineNumber?_of_pos hpos]

/-- What is told of the line, by the reason of the failure. -/
theorem Reported.line (h : Reported engine p.machine place cause r)
    (ht : p.machine.Tracks p.trail) :
    HostBuilt engine p.machine r ∨ ∃ line, Blamed engine p cause line ∧ r.line = some (line : Int) := by
  have hd := ht.does
  cases h with
  | host h => exact .inl h
  | name hc he hasks hm hcause _ hl _ => exact .inr ⟨_, .name hc he hasks hm hcause, hl⟩
  | filter hc hcall hf hcause htells =>
    rw [hc] at hd
    obtain ⟨-, hcalls, -⟩ := Node.placed_singleton.1 hd.1
    refine .inr ⟨_, .filter hc hcall hf hcause, htells.line.trans ?_⟩
    exact lineNumber?_of_pos (hcalls _ hcall)
  | @node n hc hu hf htells =>
    rw [hc] at hd
    obtain ⟨hn, hnode, hlatest, -⟩ := hd
    have hpos : 0 < n.pos.line := (Node.placed_singleton.1 hn).1
    exact .inr ⟨_, .node hc hnode hu hf, ht.tells_line htells hlatest hpos⟩
  | tag hc hu htells =>
    rw [hc] at hd
    obtain ⟨-, hruns, -⟩ := hd
    have hsome : p.trail.node?.isSome := by
      obtain ⟨pos, arguments, body, markup, hn⟩ := hruns
      rw [hn]
      rfl
    obtain ⟨n, hn, hpos⟩ := ht.begun hsome
    exact .inr ⟨_, .tag hc hruns hn, ht.tells_line htells hn hpos⟩

/-- **Failures report their lines.** A rendering that ends with an error has failed at some point of
it, whatever the host answers on the way.  Unless the error is one that the host has built, its line
is that of the innermost node that is executed in the innermost template: the include or render tag
itself where templates are nested too deep or one cannot be loaded.  A name that means nothing and a
filter that is not known have their own lines.  A tag of the host that fails itself has the line of
the node begun last in that template, which is not its own once its body has been rendered. -/
theorem failures_report_line (ht : t.Parsed) (hs : env.shelf.Parsed) (data : Bindings) :
    (∃ r, Relation.ReflTransGen Traced.Next (Traced.start env t data) r ∧
      r.machine.outcome env = some (env.render t data)) ∧
    ∀ r e env', Relation.ReflTransGen Traced.Next (Traced.start env t data) r →
      r.machine.outcome env = some (.error e, env') →
      (∃ engine p cause, FailedAt engine (Traced.start env t data) p r cause) ∧
      ∀ engine p cause, FailedAt engine (Traced.start env t data) p r cause →
        ∃ report, e.failure = .render report ∧
          (HostBuilt engine p.machine report ∨
            ∃ line, Blamed engine p cause line ∧ report.line = some (line : Int)) := by
  refine ⟨Traced.run_render env t data, fun r e env' hr ho => ⟨?_, fun engine p cause hf => ?_⟩⟩
  · exact Traced.exists_failedAt ht hs hr ho
  · obtain ⟨htracks, place, report, -, he, hrep⟩ := hf.reported ht hs ho
    exact ⟨report, he, hrep.line htracks⟩

/-! ## A tag of the host that fails behind its body -/

section

open Spelling

/-- The words of a tag of the host around an output of a name. -/
def boxWord : Spelling := ofName 'b' ['o', 'x'] rfl

/-- The end of the tag. -/
def endBoxWord : Spelling := ofName 'e' ['n', 'd', 'b', 'o', 'x'] rfl

/-- The name. -/
def boxedWord : Spelling := ofName 'x' [] rfl

/-- The output and the end of the tag. -/
def boxedSource : List Char := written .output [boxedWord] ++ (written .tag [endBoxWord] ++ [])

/-- The source of a tag on the first line with an output on the second. -/
def boxSource : List Char := written .tag [boxWord] ++ '\n' :: boxedSource

/-- The line break between them. -/
def boxedBreak : Node := .text ⟨9, 1, 9⟩ "\n"

/-- The output. -/
def boxedOutput : Node := .output ⟨10, 2, 0⟩ (some (.name ⟨13, 2, 3⟩ "x")) [] false false

/-- The tag. -/
def boxTag : Node := .tag ⟨3, 1, 3⟩ "box" [] [boxedBreak, boxedOutput] ""

/-- A template with nothing but the tag. -/
def boxPage : Template where
  source := String.ofList boxSource
  name := some "page"
  filename := none
  nodes := [boxTag]

/-- The error of the tag. -/
def boxError : Error := ⟨.tag "the box is full" none, none⟩

/-- A tag of the host that has its body rendered and fails then. -/
def boxSample : Environment where
  engine :=
    { loader := none, filters := {},
      tags := Registry.set {} "box" ⟨true, fun _ => .body .here fun _ => .fail boxError⟩ }
  globals := []
  strict := false
  maxDepth := 1
  shelf := { cache := ⟨1, "", [], 0, 0⟩, loads := 0 }

theorem parsed_boxPage : boxPage.Parsed := by
  have hend := Lexer.lexemes_written (flows_singleton (w := endBoxWord) (by decide))
    (fun _ : Region.tag = Region.tag => ⟨_, _, rfl, by decide, by decide⟩)
    (Lexer.lexemes_nil false) false
  have hout := Lexer.lexemes_written (flows_singleton (w := boxedWord) (by decide))
    (fun h : Region.output = Region.tag => Region.noConfusion h) hend false
  have hl := Lexer.lexemes_written (flows_singleton (w := boxWord) (by decide))
    (fun _ : Region.tag = Region.tag => ⟨_, _, rfl, by decide, by decide⟩)
    (Lexer.lexemes_newline hout) false
  refine ⟨[("box", true)], String.ofList boxSource, ?_⟩
  unfold parse
  rw [boxSource, boxedSource, tokenize_of_lexemes hl]
  cbv

/-- The rendering of the page where its tag fails, eleven steps from the beginning. -/
def boxFailing : Traced := Traced.after boxSample.engine 11 (Traced.start boxSample boxPage [])

/-- The rendering one step later. -/
def boxFailed : Traced := Traced.after boxSample.engine 1 boxFailing

theorem fails_box : Fails boxSample.engine boxFailing boxFailed (boxError.withinTag "box") where
  step := rfl
  trail := rfl
  busy _ := Control.noConfusion
  ended := rfl

/-- The tag fails behind its body, and then the rendering ends. -/
theorem failedAt_box : ∃ r e env' report,
    FailedAt boxSample.engine (Traced.start boxSample boxPage []) boxFailing r
        (boxError.withinTag "box") ∧
      r.machine.outcome boxSample = some (.error e, env') ∧ e.failure = .render report ∧
      report.line = some 2 :=
  ⟨Traced.after boxSample.engine 1 boxFailed, _, _, _,
    ⟨boxFailed, Traced.run_after _ 11 _, fails_box, Traced.run_after _ 1 _⟩, rfl, rfl, rfl⟩

theorem parsed_boxSample : boxSample.shelf.Parsed :=
  fun _ _ h => absurd h List.not_mem_nil

/-- The error is reported, with the line of the output in the body. -/
theorem failures_report_line_box :
    boxPage.Parsed ∧ boxSample.shelf.Parsed ∧ ∃ r : Traced, ∃ e env',
      r.machine.outcome boxSample = some (.error e, env') ∧
      ∃ report, e.failure = .render report ∧
        (HostBuilt boxSample.engine boxFailing.machine report ∨
          ∃ line, Blamed boxSample.engine boxFailing (boxError.withinTag "box") line ∧
            report.line = some (line : Int)) := by
  obtain ⟨r, e, env', report, hfailed, ho, -⟩ := failedAt_box
  exact ⟨parsed_boxPage, parsed_boxSample, r, e, env', ho,
    ((failures_report_line parsed_boxPage parsed_boxSample []).2 r e env' hfailed.run ho).2 _ _ _
      hfailed⟩

/-- But the tag itself, which is what is executed there, is on another line. -/
theorem not_always_own_line :
    ¬ ∀ p r cause e env' report,
      FailedAt boxSample.engine (Traced.start boxSample boxPage []) p r cause →
        r.machine.outcome boxSample = some (.error e, env') → e.failure = .render report →
          HostBuilt boxSample.engine p.machine report ∨
            ∃ n, p.trail.node? = some n ∧ report.line = some (n.pos.line : Int) := by
  intro h
  obtain ⟨r, e, env', report, hfailed, ho, he, hline⟩ := failedAt_box
  have hc : boxFailing.machine.control =
      .program "box" [boxedBreak, boxedOutput] (.fail boxError) none := rfl
  have hnode : boxFailing.trail.node? = some boxTag := rfl
  rcases h _ r _ e env' report hfailed ho he with hbuilt | ⟨n, hn, hl⟩
  · cases hbuilt with
    | filter hnodes =>
      rw [hc] at hnodes
      cases hnodes
    | tag hp =>
      rw [hc] at hp
      cases hp
  · obtain rfl := Option.some.inj (hnode.symm.trans hn)
    rw [hline] at hl
    exact absurd (Option.some.inj hl) (by decide)

end

end Machine

end Liquid
