import Liquid.Proofs.Rendering.Frames

/-!
# What has been written stays

A body writes to a page: to the output or, if a capture or a tag of the host waits for it, to a text
that is collected for that frame.  While something further in is collected, the page is put aside,
and it is found in the frame that put it aside.  Nothing that stands on a page is taken back as long
as the body has not ended, however much is collected and dropped further in.

**Page.** `page` goes down the frames above a body.  The lowest of them that collects a text has put
the page of the body aside; if none does, the page is the present output.

* `holds_step`: no step takes back what stands on a page, until the body has ended.
* `page_run`: and so no run does.
* `LeavesAll`: what becomes of a text when an end that is not normal goes through the frames above a
  body.
-/
namespace Liquid

/-! ## Runs and the output -/

namespace Run

variable {α β : Type}

/-- A run that takes nothing back from the output. -/
def Appends (run : Run α) : Prop := ∀ st, ∃ more, (run st).2.output = st.output ++ more

theorem appends_of_eq {run : Run α} (h : ∀ st, (run st).2.output = st.output) : Appends run :=
  fun st => ⟨"", by rw [h, String.append_empty]⟩

theorem appends_bind {run : Run α} {f : α → Run β} (h : Appends run) (hf : ∀ x, Appends (f x)) :
    Appends (run >>= f) := by
  intro st
  rw [bind_apply]
  obtain ⟨more, hmore⟩ := h st
  rcases hr : run st with ⟨stop | x, st'⟩ <;> rw [hr] at hmore
  · exact ⟨more, hmore⟩
  · obtain ⟨more', hmore'⟩ := hf x st'
    exact ⟨more ++ more', by rw [hmore', hmore, String.append_assoc]⟩

theorem Looks.appends {run : Run α} (h : Looks run) : Appends run :=
  appends_of_eq fun st => by rw [h.state]

theorem appends_write (text : String) : Appends (write text) := fun _ => ⟨text, rfl⟩

theorem appends_assign (name : String) (v : Value) : Appends (assign name v) :=
  appends_of_eq fun _ => rfl

theorem appends_moveTo (l : Loop) (position : Int) : Appends (moveTo l position) :=
  appends_of_eq fun _ => rfl

theorem appends_beginLoop (length : Int) (parent : Option Loop) :
    Appends (beginLoop length parent) :=
  appends_of_eq fun _ => rfl

theorem appends_find (s : Setting) (tag : String) (e : Expr) : Appends (find s tag e) :=
  appends_bind (looks_eval s e).appends fun _ =>
    appends_bind (looks_checkDepth s _).appends fun _ =>
      appends_of_eq fun st => by rw [fetch_apply]

theorem appends_beginItems (s : Setting) (what : Inclusion) (e : Expr) :
    Appends (beginItems s what e) :=
  appends_bind (looks_evalBindings s _).appends fun _ =>
    appends_bind (looks_evalItems s e).appends fun _ =>
      appends_bind (appends_beginLoop _ _) fun _ => (looks_pure _).appends

end Run

/-- The output beneath a frame: what it has put aside, or else the present output. -/
def Frame.beneath (output : String) : Frame → String
  | .captured _ aside | .host _ _ _ aside => aside
  | _ => output

/-- Whether a tag of the host that renders its body no more may end with a value.  What it sees when
it looks at the rendering is left open. -/
inductive Program.Returns : Program → Value → Prop where
  | done (v : Value) : Returns (.done v) v
  | body {where_ : Surrounding} {next : String → Program} {v : Value} :
    Returns (next "") v → Returns (.body where_ next) v
  | look {next : View → Program} {v : Value} (view : View) :
    Returns (next view) v → Returns (.look next) v
  | assign {name : String} {w v : Value} {next : Program} :
    Returns next v → Returns (.assign name w next) v

/-- What becomes of the present output when a signal goes past a frame.  A tag of the host is given
the whole text that was collected for it, and what it returns is written to the page that it has put
aside; a capture leaves that page as it was. -/
inductive Frame.Leaves : Frame → String → String → Prop where
  | behind (nodes : List Node) (output : String) : Leaves (.behind nodes) output output
  | block (output : String) : Leaves .block output output
  | isolation (around : Surroundings) (locals : Bindings) (positions : Positions)
    (output : String) : Leaves (.isolation around locals positions) output output
  | captured (name aside output : String) : Leaves (.captured name aside) output aside
  | host {tag : String} {body : List Node} {next : String → Program} {aside output : String}
    {v : Value} : (next output).Returns v →
    Leaves (.host tag body next aside) output (aside ++ v.toText)

namespace Machine

/-! ## Pages -/

/-- The page of a body, from the frames above it and the present output. -/
def page : List Frame → String → String
  | [], output => output
  | f :: above, output => page above (f.beneath output)

theorem page_append (above : List Frame) (output more : String) :
    ∃ more', page above (output ++ more) = page above output ++ more' := by
  induction above generalizing output more with
  | nil => exact ⟨more, rfl⟩
  | cons f above ih =>
    cases f with
    | captured | host => exact ⟨"", (String.append_empty).symm⟩
    | _ => exact ih output more

/-- A machine above some frames, with a page for them that begins with a text. -/
def Holds (base : List Frame) (text : String) (m : Machine) : Prop :=
  ∃ above more, m.stack = above ++ base ∧ page above m.state.output = text ++ more

variable {base : List Frame} {text : String} {m m' : Machine}

/-- Only the stack and the output count. -/
theorem Holds.of_eq (h : Holds base text m) (hs : m'.stack = m.stack)
    (ho : m'.state.output = m.state.output) : Holds base text m' := by
  obtain ⟨above, more, hst, hp⟩ := h
  exact ⟨above, more, hs.trans hst, by rw [ho, hp]⟩

/-- A frame that waits puts the page aside, or leaves it. -/
theorem Holds.wait (h : Holds base text m) {f : Frame} (hs : m'.stack = f :: m.stack)
    (ho : f.beneath m'.state.output = m.state.output) : Holds base text m' := by
  obtain ⟨above, more, hst, hp⟩ := h
  exact ⟨f :: above, more, by rw [hs, hst, List.cons_append], by rw [page, ho, hp]⟩

theorem holds_perform {α : Type} {run : Run α} {next : Machine → α → Machine} (hr : run.Appends)
    (h : Holds base text m)
    (hn : ∀ x st, Holds base text { m with state := st } →
      Holds base text (next { m with state := st } x)) : Holds base text (m.perform run next) := by
  have hst : Holds base text { m with state := (run m.state).2 } := by
    obtain ⟨above, more, hs, hp⟩ := h
    obtain ⟨written, hw⟩ := hr m.state
    obtain ⟨more', hmore⟩ := page_append above m.state.output written
    exact ⟨above, more ++ more', hs, by rw [hw, hmore, hp, String.append_assoc]⟩
  unfold perform
  rcases hrun : run m.state with ⟨stop | x, st⟩ <;> rw [hrun] at hst
  · exact hst.of_eq rfl rfl
  · exact hn x st hst

theorem holds_done {run : Run Unit} (hr : run.Appends) (h : Holds base text m) :
    Holds base text (m.perform run fun m () => m.done) :=
  holds_perform hr h fun _ _ h => h.of_eq rfl rfl

/-- What becomes of the present output when a signal goes past some frames. -/
inductive LeavesAll : List Frame → String → String → Prop where
  | nil (output : String) : LeavesAll [] output output
  | cons {f : Frame} {above : List Frame} {output between after : String} :
    f.Leaves output between → LeavesAll above between after → LeavesAll (f :: above) output after

/-! ## Steps -/

theorem holds_node (h : Holds base text m) (engine : Engine) (n : Node) :
    Holds base text (m.node engine n) := by
  let s := m.setting engine
  cases n with
  | text pos text | raw pos text => exact holds_done (Run.appends_write text) h
  | assign pos name e filters =>
    exact holds_done (Run.appends_bind (Run.looks_evalFiltered s e filters).appends fun _ =>
      Run.appends_assign name _) h
  | comment pos text | signal pos signal => exact h.of_eq rfl rfl
  | capture pos name body => exact h.wait rfl rfl
  | output pos e filters left right =>
    cases e with
    | none => exact h.of_eq rfl rfl
    | some e =>
      exact holds_done (Run.appends_bind (Run.looks_evalFiltered s e filters).appends fun _ =>
        Run.appends_write _) h
  | conditional pos negated test body branches otherwise =>
    exact holds_perform (Run.looks_chooseBody s negated test body branches otherwise).appends h
      fun _ _ h => h.of_eq rfl rfl
  | choice pos subject whens otherwise =>
    exact holds_perform (Run.appends_bind (Run.looks_eval s subject).appends fun v =>
      (Run.looks_chooseWhen s v otherwise whens).appends) h fun _ _ h => h.of_eq rfl rfl
  | loop pos head body otherwise =>
    simp only [node]
    refine holds_perform (Run.looks_loopItems s head).appends h fun items st h => ?_
    cases items with
    | nil => exact h.of_eq rfl rfl
    | cons v rest =>
      refine holds_perform (Run.appends_bind (Run.looks_look s).appends fun _ =>
        Run.appends_beginLoop _ _) h fun l st' h => ?_
      have hb : Holds base text
          ({ m with state := st' }.openBlock [("forloop", .loop l)]) := h.wait rfl rfl
      exact hb.wait rfl rfl
  | «include» pos what each =>
    simp only [node]
    refine holds_perform (Run.appends_find s "include" _) h fun t st h => ?_
    cases each with
    | none =>
      exact holds_perform (Run.looks_evalGiven s what t).appends h fun _ _ h => h.wait rfl rfl
    | some e =>
      refine holds_perform (Run.appends_beginItems s what e) h fun r st' h => ?_
      have hb : Holds base text ({ m with state := st' }.openBlock r.1) := h.wait rfl rfl
      exact hb.wait rfl rfl
  | render pos what =>
    simp only [node]
    refine holds_perform (Run.appends_find s "render" _) h fun t st h => ?_
    exact holds_perform (Run.looks_evalGiven s what t).appends h fun _ _ h => h.wait rfl rfl
  | tag pos name arguments body markup =>
    simp only [node]
    cases engine.tags.get? name with
    | none => exact holds_done (Run.looks_unknownTag s name).appends h
    | some tag =>
      exact holds_perform (Run.looks_evalArguments s arguments).appends h
        fun _ _ h => h.of_eq rfl rfl

theorem holds_program (h : Holds base text m) (engine : Engine) (tag : String) (body : List Node)
    (p : Program) (pending : Option Signal) :
    Holds base text (m.program engine tag body p pending) := by
  cases p with
  | done v =>
    refine holds_perform (Run.appends_write v.toText) h fun _ _ h => ?_
    cases pending <;> exact h.of_eq rfl rfl
  | fail e | look next => exact h.of_eq rfl rfl
  | assign name v next => exact h.of_eq rfl rfl
  | body where_ next =>
    cases pending with
    | some signal => exact h.of_eq rfl rfl
    | none =>
      have hc : Holds base text (m.collect (.host tag body next)) := h.wait rfl rfl
      cases where_ with
      | here => exact hc.of_eq rfl rfl
      | inside frame => exact hc.wait rfl rfl
      | isolated data => exact hc.wait rfl rfl

/-- What waits is taken up with the page that it has put aside. -/
theorem holds_resume {f : Frame} {above : List Frame} {more : String}
    (hst : m.stack = above ++ base)
    (hp : page (f :: above) m.state.output = text ++ more) (how : Except Stop Unit) :
    Holds base text (m.resume how f) := by
  have hplain (hb : f.beneath m.state.output = m.state.output) : Holds base text m :=
    ⟨above, more, hst, by rw [page, hb] at hp; exact hp⟩
  cases f with
  | behind nodes => cases how <;> exact (hplain rfl).of_eq rfl rfl
  | block | isolation | template => exact (hplain rfl).of_eq rfl rfl
  | visits l target body position items =>
    have h := hplain rfl
    have hv (v : Value) (rest : List Value) : Holds base text
        (m.perform (Run.moveTo l position) fun m _ =>
          ({ m with around := m.around.bind target v }.wait
            (.visits l target body (position + 1) rest)).goOn body) :=
      holds_perform (Run.appends_moveTo l position) h fun _ _ h => h.wait rfl rfl
    rcases how with (signal | _) | _
    case error.signal =>
      cases signal with
      | leave => exact h.of_eq rfl rfl
      | next => cases items with
        | nil => exact h.of_eq rfl rfl
        | cons v rest => exact hv v rest
    case error.error => exact h.of_eq rfl rfl
    case ok => cases items with
      | nil => exact h.of_eq rfl rfl
      | cons v rest => exact hv v rest
  | items l called t position items =>
    have h := hplain rfl
    cases how with
    | error stop => exact h.of_eq rfl rfl
    | ok => cases items with
      | nil => exact h.of_eq rfl rfl
      | cons v rest =>
        exact holds_perform (Run.appends_moveTo l position) h fun _ _ h => h.wait rfl rfl
  | captured name aside => cases how <;> exact ⟨above, more, hst, hp⟩
  | host tag body next aside => rcases how with (_ | _) | _ <;> exact ⟨above, more, hst, hp⟩

/-- No step takes back what stands on a page, until the body has ended. -/
theorem holds_step {b : Machine} (h : Holds b.stack text m) (hs : Inside b m m') :
    Holds b.stack text m' := by
  obtain ⟨engine, hb, hs⟩ := hs
  unfold step at hs
  split at hs
  case h_1 => cases hs; exact h.of_eq rfl rfl
  case h_2 => cases hs; exact h.wait rfl rfl
  case h_3 n _ => cases hs; exact holds_node h engine n
  case h_4 t _ => cases hs; exact h.wait rfl rfl
  case h_5 tag body p pending _ => cases hs; exact holds_program h engine tag body p pending
  case h_6 how hc =>
    split at hs
    · cases hs
    · rename_i f rest hst
      cases hs
      obtain ⟨above, more, hab, hp⟩ := h
      cases above with
      | nil => exact absurd ⟨hab, how, hc⟩ hb
      | cons g above =>
        rw [hst, List.cons_append, List.cons.injEq] at hab
        obtain ⟨rfl, rfl⟩ := hab
        exact holds_resume (m := { m with stack := above ++ b.stack }) rfl hp how

/-- What stands on the page of a body at one point stands there at every later point, until the body
has ended. -/
theorem page_run {b : Machine} {above : List Frame} (hm : Relation.ReflTransGen (Inside b) m m')
    (hst : m.stack = above ++ b.stack) : Holds b.stack (page above m.state.output) m' := by
  induction hm with
  | refl => exact ⟨above, "", hst, (String.append_empty).symm⟩
  | tail _ hn ih => exact holds_step ih hn

end Machine

end Liquid
