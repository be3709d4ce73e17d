import Liquid.Proofs.Reading.ReadBack
import Liquid.Proofs.Rendering.Signals

/-!
# What a signal leaves behind

A signal cuts short the visit of a loop, and with it all that waits within the visit.  What the body
has written by then is kept: it stands in the output, or it is given to the tag of the host that
collects it, just as at the normal end of the body.  A capture alone does not follow this.  It drops
what it has collected and binds no name.

**Pages.** The body and each frame that collects a text within it have a page each (`page`).  Up to
the signal nothing is taken back from any of them.  The signal goes past the frames one by one
(`LeavesAll`), and each of them hands on the page beneath it.

* `text_before_signal`: where the text goes that was written before a signal.
* `not_always_bound`: the text of a capture is not bound to its name when a signal goes past it.
-/
namespace Liquid

open Node

namespace Machine

variable {m : Machine}

/-- What is written is not taken back before the body that writes it has ended.  So the pages at a
signal have all that was written before it, and the signal takes it to the loop in whose body it
stands: past a tag of the host, which is given the text collected for it and whose value is written
to the page beneath, and past a capture, which leaves the page beneath as it was.  The loop is left
or goes on with the page as it then stands, unless a tag of the host fails on the way. -/
theorem text_before_signal {env : Environment} {t : Template} {data : Bindings} (ht : t.Parsed)
    (hs : env.shelf.Parsed) (hm : Relation.ReflTransGen Next (start env t data) m)
    {pos : Position} {signal : Signal} (hc : m.control = .node (.signal pos signal)) :
    (∀ b x y above, Relation.ReflTransGen (Inside b) x y → x.stack = above ++ b.stack →
      ∃ above' more, y.stack = above' ++ b.stack ∧
        page above' y.state.output = page above x.state.output ++ more) ∧
    ∃ inner l target body position items outer,
      m.stack = inner ++ .visits l target body position items :: outer ∧
      In body (.signal pos signal) ∧
      ∀ engine, ∃ w stop, Relation.ReflTransGen (Within engine w) m w ∧
        w.stack = .visits l target body position items :: outer ∧
        w.control = .ended (.error stop) ∧
        (∃ more, w.state.output = page inner m.state.output ++ more) ∧
        (stop = .signal signal ∧ LeavesAll inner m.state.output w.state.output ∧
            w.Obeys engine outer signal ∨
          (∃ f ∈ inner, f.isHost = true) ∧ ∃ e, stop = .error e) := by
  refine ⟨fun b x y above hxy hst => page_run hxy hst, ?_⟩
  have hb := (caught_run (caught_start ht hs data) hm).follows
  rw [hc] at hb
  obtain ⟨body, hh, hin⟩ := hb.signal
  obtain ⟨inner, l, target, position, items, outer, hst, hp⟩ := split_home hh
  refine ⟨inner, l, target, body, position, items, outer, hst, hin, fun engine => ?_⟩
  obtain ⟨w, stop, hw, hwst, hwc, h⟩ := signal_passes hc hst hp engine
  have hinside : Relation.ReflTransGen (Inside w) m w :=
    Relation.ReflTransGen.mono (fun _ _ h => ⟨engine, h⟩) _ _ hw
  obtain ⟨above, more, hab, hpage⟩ := page_run hinside (by rw [hst, hwst])
  obtain rfl : above = [] := List.append_left_eq_self.1 hab.symm
  exact ⟨w, stop, hw, hwst, hwc, ⟨more, hpage⟩, h⟩

open Spelling

/-- The words that open a capture. -/
def captureWords : List Spelling :=
  [ofName 'c' ['a', 'p', 't', 'u', 'r', 'e'] rfl, ofName 'c' [] rfl]

/-- The word of an output. -/
def itemWord : Spelling := ofString ['w'] rfl

/-- The word that ends a capture. -/
def endcaptureWord : Spelling := ofName 'e' ['n', 'd', 'c', 'a', 'p', 't', 'u', 'r', 'e'] rfl

/-- The source `{% for n in "y" %}{% capture c %}{{ "w" }}{% break %}{% endcapture %}{% endfor %}`. -/
def capturingSource : List Char :=
  written .tag loopWords ++ (written .tag captureWords ++ (written .output [itemWord] ++
    (written .tag [leavingWord] ++ (written .tag [endcaptureWord] ++ written .tag [endingWord]))))

/-- A loop that is left from within a capture. -/
def capturing : Template where
  source := String.ofList capturingSource
  name := none
  filename := none
  nodes :=
    [.loop ⟨3, 1, 3⟩ ⟨"n", .const ⟨12, 1, 12⟩ (.text "y"), none, none, false⟩
      [.capture ⟨21, 1, 21⟩ "c"
        [.output ⟨33, 1, 33⟩ (some (.const ⟨36, 1, 36⟩ (.text "w"))) [] false false,
          .signal ⟨45, 1, 45⟩ .leave]] []]

theorem parsed_capturing : capturing.Parsed := by
  have hend := Lexer.lexemes_written (flows_singleton (w := endingWord) (by decide))
    (fun _ : Region.tag = Region.tag => ⟨endingWord, [], rfl, by decide, by decide⟩)
    (Lexer.lexemes_nil false) false
  rw [List.append_nil] at hend
  have hendcapture := Lexer.lexemes_written (flows_singleton (w := endcaptureWord) (by decide))
    (fun _ : Region.tag = Region.tag => ⟨endcaptureWord, [], rfl, by decide, by decide⟩) hend false
  have hbreak := Lexer.lexemes_written (flows_singleton (w := leavingWord) (by decide))
    (fun _ : Region.tag = Region.tag => ⟨leavingWord, [], rfl, by decide, by decide⟩) hendcapture
    false
  have hitem := Lexer.lexemes_written (flows_singleton (w := itemWord) (by decide))
    (fun h : Region.output = Region.tag => by cases h) hbreak false
  have hname : Flows false captureWords false :=
    flows_cons (by decide) (flows_singleton (by decide))
  have hcapture := Lexer.lexemes_written hname
    (fun _ : Region.tag = Region.tag => ⟨_, _, rfl, by decide, by decide⟩) hitem false
  have hflows : Flows false loopWords false :=
    flows_cons (by decide) (flows_cons (by decide) (flows_cons (by decide)
      (flows_singleton (by decide))))
  have hl := Lexer.lexemes_written hflows
    (fun _ : Region.tag = Region.tag => ⟨_, _, rfl, by decide, by decide⟩) hcapture false
  refine ⟨[], String.ofList capturingSource, ?_⟩
  rw [capturingSource, parse_of_tokenize (tokenize_of_lexemes hl)]
  refine (Reading.readNodes_tag rfl rfl (by cbv) (Reading.returns_of_map (by cbv))).trans ?_
  refine (Reading.readNodes_tag rfl rfl (by cbv) (Reading.returns_of_map (by cbv))).trans ?_
  refine (Reading.readNodes_output rfl (Reading.returns_of_map (by cbv))).trans ?_
  refine (Reading.readNodes_adds rfl rfl (by cbv) (Reading.returns_of_map (by cbv))).trans ?_
  refine (Reading.readNodes_end rfl rfl (by cbv) (by cbv) (by cbv) rfl).trans ?_
  refine (Reading.readNodes_end rfl rfl (by cbv) (by cbv) (by cbv) rfl).trans ?_
  refine (Reading.readNodes_eof rfl).trans ?_
  cbv

/-- The signal in the capture, with the text that the capture has collected. -/
theorem text_before_signal_captured :
    capturing.Parsed ∧ bare.shelf.Parsed ∧
      ∃ m, Relation.ReflTransGen Next (start bare capturing []) m ∧
        m.control = .node (.signal ⟨45, 1, 45⟩ .leave) ∧ m.state.output = "w" ∧
        ∃ inner l target body position items outer,
          m.stack = inner ++ .visits l target body position items :: outer ∧
          In body (.signal ⟨45, 1, 45⟩ .leave) := by
  have hs : bare.shelf.Parsed := fun _ _ h => by cases h
  have hm : ∃ m, Relation.ReflTransGen Next (start bare capturing []) m ∧
      m.control = .node (.signal ⟨45, 1, 45⟩ .leave) ∧ m.state.output = "w" :=
    ⟨_, .head ⟨bare.engine, rfl⟩ (.head ⟨bare.engine, rfl⟩ (.head ⟨bare.engine, rfl⟩
      (.head ⟨bare.engine, rfl⟩ (.head ⟨bare.engine, rfl⟩ (.head ⟨bare.engine, rfl⟩
        (.head ⟨bare.engine, rfl⟩ (.head ⟨bare.engine, rfl⟩
          (.head ⟨bare.engine, rfl⟩ .refl)))))))), rfl, rfl⟩
  obtain ⟨m, hm, hc, ho⟩ := hm
  obtain ⟨-, inner, l, target, body, position, items, outer, hst, hin, -⟩ :=
    text_before_signal parsed_capturing hs hm hc
  exact ⟨parsed_capturing, hs, m, hm, hc, ho, inner, l, target, body, position, items, outer, hst,
    hin⟩

/-- The name of a capture is not bound to what has been collected when a signal goes past it. -/
theorem not_always_bound :
    ¬ ∀ (env : Environment) (t : Template) (data : Bindings) (engine : Engine) (m w : Machine)
      (signal : Signal) (name aside : String) (outer : List Frame),
      t.Parsed → env.shelf.Parsed → Relation.ReflTransGen Next (start env t data) m →
        m.control = .ended (.error (.signal signal)) → m.stack = .captured name aside :: outer →
          m.step engine = some w → w.state.locals.get? name = some (.text m.state.output) := by
  intro h
  have hm : ∃ m, Relation.ReflTransGen Next (start bare capturing []) m ∧
      m.control = .ended (.error (.signal .leave)) ∧
      (∃ outer, m.stack = .captured "c" "" :: outer) ∧ m.state.locals = [] :=
    ⟨_, .head ⟨bare.engine, rfl⟩ (.head ⟨bare.engine, rfl⟩ (.head ⟨bare.engine, rfl⟩
      (.head ⟨bare.engine, rfl⟩ (.head ⟨bare.engine, rfl⟩ (.head ⟨bare.engine, rfl⟩
        (.head ⟨bare.engine, rfl⟩ (.head ⟨bare.engine, rfl⟩ (.head ⟨bare.engine, rfl⟩
          (.head ⟨bare.engine, rfl⟩ (.head ⟨bare.engine, rfl⟩ .refl)))))))))),
      rfl, ⟨_, rfl⟩, rfl⟩
  obtain ⟨m, hm, hc, ⟨outer, hst⟩, hl⟩ := hm
  have hstep : m.step bare.engine =
      some ({ m with stack := outer }.resume (.error (.signal .leave)) (.captured "c" "")) := by
    unfold step
    rw [hc, hst]
  have hb := h bare capturing [] bare.engine m _ .leave "c" "" outer parsed_capturing
    (fun _ _ h => by cases h) hm hc hst hstep
  change m.state.locals.get? "c" = _ at hb
  rw [hl] at hb
  cases hb

end Machine

end Liquid
