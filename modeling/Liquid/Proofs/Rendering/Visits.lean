import Liquid.Proofs.Rendering.Frames
import Mathlib

/-!
# The visits of a loop

A loop goes through the items of a slice.  While it is at one of them, its body may assign what it
likes, run loops of its own and render other templates; the target still means the item, and the
loop shows which of its visits this is.

**Context.** A template that is rendered by itself inside a body has names of its own, and those of
the body are put aside meanwhile.  What a body sees is looked up where it began: `seenFrom` goes
down to the lowest isolation above it.

* `within_nodes`: nodes come to their end above whatever waits.
* `seenFrom_run`: until then the frames and the loops below them are those of before.
* `visited_run`: what holds at every point of a visit.
* `loop_visits`: which items a loop visits, and how it ends.
-/
namespace Liquid

namespace Machine

variable {engine : Engine} {m m' : Machine} {base : List Frame}

/-! ## A rendering above what else waits -/

/-- The machine with more that waits below all else. -/
def onto (m : Machine) (base : List Frame) : Machine := { m with stack := m.stack ++ base }

theorem perform_onto {α : Type} {run : Run α} {next : Machine → α → Machine}
    (h : ∀ st x,
      (next { m with state := st } x).onto base = next ({ m with state := st }.onto base) x) :
    (m.perform run next).onto base = (m.onto base).perform run next := by
  have hs : (m.onto base).state = m.state := rfl
  unfold perform
  rw [hs]
  rcases run m.state with ⟨stop | x, st⟩
  · rfl
  · exact h st x

theorem node_onto (engine : Engine) (m : Machine) (n : Node) (base : List Frame) :
    (m.node engine n).onto base = (m.onto base).node engine n := by
  cases n with
  | text pos text | raw pos text => exact perform_onto fun _ _ => rfl
  | comment pos text | signal pos signal | capture pos name body => rfl
  | output pos e filters left right =>
    cases e with
    | none => rfl
    | some e => exact perform_onto fun _ _ => rfl
  | conditional | choice | assign => exact perform_onto fun _ _ => rfl
  | loop pos head body otherwise =>
    refine perform_onto fun st items => ?_
    cases items with
    | nil => rfl
    | cons v rest => exact perform_onto fun _ _ => rfl
  | «include» pos what each =>
    refine perform_onto fun st t => ?_
    cases each with
    | none => exact perform_onto fun _ _ => rfl
    | some e => exact perform_onto fun _ _ => rfl
  | render pos what => exact perform_onto fun st t => perform_onto fun _ _ => rfl
  | tag pos name arguments body markup =>
    simp only [node]
    cases engine.tags.get? name with
    | none => exact perform_onto fun _ _ => rfl
    | some tag => exact perform_onto fun _ _ => rfl

theorem program_onto (engine : Engine) (m : Machine) (tag : String) (body : List Node) (p : Program)
    (pending : Option Signal) (base : List Frame) :
    (m.program engine tag body p pending).onto base =
      (m.onto base).program engine tag body p pending := by
  cases p with
  | done v => cases pending <;> rfl
  | fail e => rfl
  | body where_ next => cases pending <;> cases where_ <;> rfl
  | look next => rfl
  | assign name v next => rfl

theorem resume_onto (m : Machine) (how : Except Stop Unit) (f : Frame) (base : List Frame) :
    (m.resume how f).onto base = (m.onto base).resume how f := by
  cases f with
  | behind | captured => cases how <;> rfl
  | block | isolation | template => rfl
  | visits l target body position items =>
    rcases how with (signal | _) | _
    case error.signal => cases signal <;> cases items <;> rfl
    case error.error | ok => cases items <;> rfl
  | items l called t position items => cases how <;> cases items <;> rfl
  | host tag body next output => rcases how with (_ | _) | _ <;> rfl

/-- What waits further down does not matter to a step. -/
theorem step_onto (h : m.step engine = some m') (base : List Frame) :
    (m.onto base).step engine = some (m'.onto base) := by
  obtain ⟨control, stack, around, place, state⟩ := m
  cases control with
  | nodes nodes => cases nodes <;> cases h <;> rfl
  | node n => cases h; exact congrArg some (node_onto engine _ n base).symm
  | template t => cases h; rfl
  | program tag body p pending =>
    cases h; exact congrArg some (program_onto engine _ tag body p pending base).symm
  | ended how =>
    cases stack with
    | nil => cases h
    | cons f rest =>
      cases h
      exact congrArg some (resume_onto ⟨.ended how, rest, around, place, state⟩ how f base).symm

/-- Nodes come to their end without coming to it before. -/
theorem within_nodes (engine : Engine) (m : Machine) (nodes : List Node) :
    Relation.ReflTransGen (Within engine m) (m.goOn nodes)
      (m.back (renderNodes (below (levelsAt m.place)) (m.setting engine) nodes m.state)) := by
  -- With nothing below it, a machine that has ended takes no step.
  have hr := steps_nodes engine { m with stack := [] } nodes
  refine Relation.ReflTransGen.lift (fun x : Machine => x.onto m.stack) (fun x y hxy => ?_) _ _ hr
  refine ⟨?_, step_onto hxy m.stack⟩
  rintro ⟨hst, how, hc⟩
  have hx : x.stack = [] := List.append_left_eq_self.1 hst
  have hc : x.control = .ended how := hc
  unfold step at hxy
  rw [hc, hx] at hxy
  cases hxy

/-! ## What a body sees of the block in which it stands -/

/-- What is seen below some of the frames: what is seen above them, or what the lowest isolation
among them has put aside. -/
def aside : List Frame → View → View
  | [], view => view
  | .isolation around locals positions :: rest, view =>
    aside rest { view with scope := { toSurroundings := around, locals }, positions }
  | _ :: rest, view => aside rest view

/-- What is seen in the context that a body began in, at a point of the body: the present names and
loops, or those that have been put aside where an isolation stands above the body. -/
def seenFrom (b m : Machine) : View := aside (m.stack.take (m.stack.length - b.stack.length)) m.view

variable {b : Machine}

theorem aside_above {n : Nat} {stack : List Frame} {around : Surroundings} {place : Option Place}
    {positions : Positions} (h : Above b n stack around place positions) (view : View)
    (more : List Bindings) (hf : view.scope.frames = more ++ around.frames)
    (hp : view.positions = positions) :
    ∃ opened,
      (aside (stack.take (stack.length - b.stack.length)) view).scope.frames =
        opened ++ b.around.frames ∧
      (aside (stack.take (stack.length - b.stack.length)) view).positions.toList.take
        b.state.positions.size = b.state.positions.toList := by
  have next {stack : List Frame} (f : Frame) (hl : b.stack.length ≤ stack.length) :
      (f :: stack).take ((f :: stack).length - b.stack.length) =
        f :: stack.take (stack.length - b.stack.length) := by
    rw [List.length_cons, Nat.succ_sub hl, List.take_succ_cons]
  induction h generalizing view more with
  | base hs ht =>
    rw [Nat.sub_self, List.take_zero]
    exact ⟨more, hf, hp ▸ ht⟩
  | behind h ih | template inner h ih | captured h ih | host h ih =>
    rw [next _ h.length_le]
    exact ih view more hf hp
  | block frame h ih =>
    rw [next _ h.length_le]
    exact ih view (more ++ [frame]) (hf.trans (by simp [Surroundings.push])) hp
  | isolation inner loops h ih =>
    rw [next _ h.length_le]
    exact ih _ [] rfl rfl
  | visits frame _ h ih | items frame _ h ih =>
    have hl := h.length_le
    rw [next _ (show b.stack.length ≤ (Frame.block :: _).length from Nat.le_succ_of_le hl),
      next _ hl]
    exact ih view (more ++ [frame]) (hf.trans (by simp [Surroundings.push])) hp

/-- In the context that a body began in, the frames are those of then, perhaps behind others that
have been opened since, and the loops of then stand where they stood. -/
theorem seenFrom_run {nodes : List Node}
    (hs : Relation.ReflTransGen (Inside b) (b.goOn nodes) m) :
    ∃ opened, (seenFrom b m).scope.frames = opened ++ b.around.frames ∧
      (seenFrom b m).positions.toList.take b.state.positions.size = b.state.positions.toList := by
  obtain ⟨n, h⟩ := above_run hs
  exact aside_above h m.view [] rfl rfl

/-! ## One visit -/

/-- What the name for it shows of a loop with so many items that stands at one of them. -/
def loopEntries (length k : Int) : List (String × Value) :=
  [("index", .int (k + 1)), ("index0", .int k), ("rindex", .int (length - k)),
    ("rindex0", .int (length - k - 1)), ("first", .bool (decide (k = 0))),
    ("last", .bool (decide (k = length - 1))), ("length", .int length)]

/-- What holds at every point of a visit, in the context in which the body began: unless a frame
that has been opened since binds the name, the target means the item, and the name for the loop shows
where it stands. -/
def Visited (b : Machine) (target : String) (v : Value) (length k : Int) (m : Machine) : Prop :=
  ∃ opened, (seenFrom b m).scope.frames = opened ++ b.around.frames ∧
    ((∀ frame ∈ opened, Bindings.get? target frame = none) →
      (seenFrom b m).lookup target = v.now (seenFrom b m).positions) ∧
    ((∀ frame ∈ opened, Bindings.get? "forloop" frame = none) →
      ∀ entry ∈ loopEntries length k, ∀ strict pos pos',
        (Expr.property pos (.name pos' "forloop") entry.1).eval (seenFrom b m) strict =
          .ok entry.2)

/-- The machine where a loop begins to visit an item. -/
def visiting (m : Machine) (l : Loop) (target : String) (body : List Node) (k : Int) (v : Value)
    (rest : List Value) (st : State) : Machine where
  control := .nodes body
  stack := .visits l target body (k + 1) rest :: .block :: m.stack
  around := m.around.push (Bindings.set target v [("forloop", .loop l)])
  place := m.place
  state := { st with positions := st.positions.setIfInBounds l.id (some k) }

variable {l : Loop} {target : String} {body : List Node} {length k : Int} {v : Value}
  {rest : List Value} {st : State}

theorem findSome?_frames {opened : List Bindings} {frame : Bindings} {outer : List Bindings}
    {name : String} (h : ∀ f ∈ opened, Bindings.get? name f = none)
    (hv : Bindings.get? name frame = some v) (scope : Scope)
    (hf : scope.frames = opened ++ frame :: outer) : scope.lookup name = v := by
  have ho : opened.findSome? (Bindings.get? name) = none := List.findSome?_eq_none_iff.2 h
  rw [Scope.lookup, Scope.lookup?, Scope.layers, hf, List.findSome?_append,
    List.findSome?_append, ho, List.findSome?_cons, hv]
  rfl

theorem position?_of_take {positions positions' : Positions} {id : Nat} {position : Option Int}
    (hid : positions[id]? = some position)
    (ht : positions'.toList.take positions.size = positions.toList) :
    positions'.position? id = position := by
  have hlt : id < positions.size := (Array.getElem?_eq_some_iff.1 hid).1
  have hs : positions'.toList[id]? = some position := by
    rw [← List.getElem?_take_of_lt hlt, ht, Array.getElem?_toList, hid]
  rw [Positions.position?, ← Array.getElem?_toList, hs]
  rfl

theorem now_loop (l : Loop) (positions : Positions) :
    (l.now positions).length = l.length ∧
      (l.now positions).position = (positions.position? l.id).getD l.position := by
  obtain ⟨id, length, position, _ | parent⟩ := l <;> exact ⟨rfl, rfl⟩

theorem attributeNamed_loop (l : Loop) (entry : String × Value)
    (he : entry ∈ Value.loopAttributes l) :
    (Value.loop l).attributeNamed entry.1 = entry.2 := by
  simp only [Value.loopAttributes, Loop.fields, List.mem_append, List.mem_cons, List.not_mem_nil,
    or_false] at he
  rcases he with (rfl | rfl | rfl | rfl | rfl | rfl | rfl) | rfl
  all_goals
    unfold Value.attributeNamed
    rw [if_neg (by dsimp only; decide)]
    rfl

/-- The name for the loop gives all that the loop shows. -/
theorem eval_loopAttributes {view : View} {l : Loop} (h : view.lookup "forloop" = .loop l)
    (entry : String × Value) (he : entry ∈ Value.loopAttributes l) (strict : Bool)
    (pos pos' : Position) :
    (Expr.property pos (.name pos' "forloop") entry.1).eval view strict = .ok entry.2 := by
  have hn : (Expr.name pos' "forloop").eval view strict = .ok (.loop l) := by
    rw [Expr.eval, Expr.evalName, h]
    rfl
  rw [Expr.eval, hn]
  exact congrArg Except.ok (attributeNamed_loop l entry he)

/-- The body of a visit runs to its end, and until then the target means the item and the loop
stands where it stands. -/
theorem visited_run (htarget : target ≠ "forloop") (hid : l.id < st.positions.size)
    {x : Machine} (hs : Relation.ReflTransGen (Inside (visiting m l target body k v rest st))
      (visiting m l target body k v rest st) x) :
    Visited (visiting m l target body k v rest st) target v l.length k x := by
  let b := visiting m l target body k v rest st
  have hs : Relation.ReflTransGen (Inside b) (b.goOn body) x := hs
  obtain ⟨opened, hf, ht⟩ := seenFrom_run hs
  refine ⟨opened, hf, fun ho => ?_, fun ho => ?_⟩
  · exact congrArg (Value.now _) (findSome?_frames ho (Bindings.get?_set_self _ _ _) _ hf)
  · have hl : Bindings.get? "forloop" (Bindings.set target v [("forloop", .loop l)]) =
        some (.loop l) := Bindings.get?_set_of_ne htarget.symm _ _
    have hstand : b.state.positions[l.id]? = some (some k) :=
      Array.getElem?_setIfInBounds_self_of_lt hid
    have hnow := now_loop l (seenFrom b x).positions
    rw [position?_of_take hstand ht] at hnow
    have hlook := congrArg (Value.now (seenFrom b x).positions) (findSome?_frames ho hl _ hf)
    have he (entry : String × Value)
        (he : entry ∈ loopEntries (l.now _).length (l.now _).position) :=
      eval_loopAttributes hlook entry (List.mem_append_left _ he)
    rw [hnow.1, hnow.2] at he
    exact he

/-! ## All visits -/

/-- One visit: the loop goes on with an item, the body runs to an end of its own, and all the while
the names mean what they should. -/
structure Visit (engine : Engine) (m : Machine) (l : Loop) (target : String) (body : List Node)
    (k : Int) (v : Value) (rest : List Value) (w b : Machine) (r : Except Stop Unit × State) :
    Prop where
  block : b = visiting m l target body k v rest w.state
  begins : Within engine m w b
  runs : Relation.ReflTransGen (Within engine b) b (b.back r)
  shows : ∀ x, Relation.ReflTransGen (Inside b) b x → Visited b target v l.length k x

/-- The visits of a loop from one of its items on, and how the loop ends.  After a visit that ends
normally or that is continued the next one begins, where the rendering stands then; a visit that is
left, or that fails, is the last one. -/
inductive Visits (engine : Engine) (m : Machine) (l : Loop) (target : String) (body : List Node) :
    Int → List Value → Machine → Except Stop Unit × State → Prop where
  | over {k w} :
    Relation.ReflTransGen (Within engine m) w (m.back (.ok (), w.state)) →
    Visits engine m l target body k [] w (.ok (), w.state)
  | goOn {k v rest w b how st r} :
    Visit engine m l target body k v rest w b (how, st) →
    how = .ok () ∨ how = .error (.signal .next) →
    Visits engine m l target body (k + 1) rest (b.back (how, st)) r →
    Visits engine m l target body k (v :: rest) w r
  | leave {k v rest w b st} :
    Visit engine m l target body k v rest w b (.error (.signal .leave), st) →
    Relation.ReflTransGen (Within engine m) (b.back (.error (.signal .leave), st))
      (m.back (.ok (), st)) →
    Visits engine m l target body k (v :: rest) w (.ok (), st)
  | fail {k v rest w b st e} :
    Visit engine m l target body k v rest w b (.error (.error e), st) →
    Relation.ReflTransGen (Within engine m) (b.back (.error (.error e), st))
      (m.back (.error (.error e), st)) →
    Visits engine m l target body k (v :: rest) w (.error (.error e), st)

theorem not_endedOn {x : Machine} (h : m.stack.length < x.stack.length) : ¬ EndedOn m x :=
  fun he => Nat.ne_of_gt h (congrArg List.length he.1)

/-- Where a loop is over, its block is closed. -/
theorem within_closing {w : Machine} (frame : Bindings) (how : Except Stop Unit) (st : State)
    (hl : m.stack.length < w.stack.length) (hs : w.step engine = some (m.closing frame how st)) :
    Relation.ReflTransGen (Within engine m) w (m.back (how, st)) :=
  .head ⟨not_endedOn hl, hs⟩ (.single ⟨not_endedOn (Nat.lt_succ_self _), rfl⟩)

theorem visit_of_waiting (htarget : target ≠ "forloop") {w : Machine}
    (hid : l.id < w.state.positions.size) (hl : m.stack.length < w.stack.length)
    (hs : w.step engine = some (visiting m l target body k v rest w.state)) :
    ∃ r : Except Stop Unit × State, l.id < r.2.positions.size ∧
      Visit engine m l target body k v rest w (visiting m l target body k v rest w.state) r := by
  let b := visiting m l target body k v rest w.state
  have hr : Relation.ReflTransGen (Within engine b) b _ := within_nodes engine b body
  have hi : Relation.ReflTransGen (Inside b) (b.goOn body) _ :=
    Relation.ReflTransGen.mono (fun _ _ h => ⟨engine, h⟩) _ _ hr
  obtain ⟨-, -, ht⟩ := (frames_restored b body).2 _ hi ⟨rfl, _, rfl⟩
  refine ⟨_, ?_, rfl, ⟨not_endedOn hl, hs⟩, hr, fun x hx => visited_run htarget hid hx⟩
  have hsize := congrArg List.length ht
  simp only [List.length_take, Array.length_toList] at hsize
  have hb : b.state.positions.size = w.state.positions.size := Array.size_setIfInBounds
  change l.id < (b.back _).state.positions.size
  omega

/-- A loop that waits for its next visit comes to its end. -/
theorem exists_visits (htarget : target ≠ "forloop") (items : List Value) :
    ∀ (k : Int) (frame : Bindings) (how : Except Stop Unit) (st : State),
      how = .ok () ∨ how = .error (.signal .next) →
      (∀ v, frame.set target v = Bindings.set target v [("forloop", .loop l)]) →
      l.id < st.positions.size →
      ∃ r, Visits engine m l target body k items
        (m.inBlock frame (.visits l target body k items) how st) r := by
  induction items with
  | nil =>
    intro k frame how st hw _ _
    refine ⟨_, .over (within_closing frame (.ok ()) st ?_ ?_)⟩
    · exact Nat.lt_succ_of_lt (Nat.lt_succ_self _)
    · rcases hw with rfl | rfl <;> rfl
  | cons v rest ih =>
    intro k frame how st hw hf hid
    let w := m.inBlock frame (.visits l target body k (v :: rest)) how st
    have hl : m.stack.length < w.stack.length := Nat.lt_succ_of_lt (Nat.lt_succ_self _)
    have hs : w.step engine = some (visiting m l target body k v rest st) := by
      rw [visiting, ← hf v]
      rcases hw with rfl | rfl <;> rfl
    obtain ⟨⟨how', st'⟩, hid', hv⟩ := visit_of_waiting htarget hid hl hs
    have hf' (u : Value) : (Bindings.set target v [("forloop", .loop l)]).set target u =
        Bindings.set target u [("forloop", .loop l)] := Bindings.set_set _ _ _ _
    rcases how' with (signal | e) | _
    case error.signal =>
      cases signal with
      | leave => exact ⟨_, .leave hv (within_closing _ (.ok ()) st' hl rfl)⟩
      | next =>
        obtain ⟨r, hr⟩ := ih (k + 1) _ (.error (.signal .next)) st' (.inr rfl) hf' hid'
        exact ⟨r, .goOn hv (.inr rfl) hr⟩
    case error.error => exact ⟨_, .fail hv (within_closing _ (.error (.error e)) st' hl rfl)⟩
    case ok =>
      obtain ⟨r, hr⟩ := ih (k + 1) _ (.ok ()) st' (.inl rfl) hf' hid'
      exact ⟨r, .goOn hv (.inl rfl) hr⟩

/-! ## The loop -/

/-- The part of some items from one position up to so many, from the position on without a limit,
perhaps backwards.  A position or a limit below zero counts as zero. -/
def slice (items : List Value) (offset limit : Option Int) (reversed : Bool) : List Value :=
  let first := (max 0 (offset.getD 0)).toNat
  let last := (limit.map fun n => first + (max 0 n).toNat).getD items.length
  if reversed then (items.extract first last).reverse else items.extract first last

theorem part_eq_slice (items : List Value) (offset limit : Option Int) (reversed : Bool) :
    Run.part offset limit reversed items = slice items offset limit reversed := by
  have hfirst : (max 0 (offset.getD 0)).toNat = (offset.getD 0).toNat := by omega
  unfold Run.part slice
  rw [hfirst]
  cases limit with
  | none =>
    have hall : (items.drop (offset.getD 0).toNat).length ≤ items.length - (offset.getD 0).toNat :=
      List.length_drop.le
    simp only [Option.map_none, Option.getD_none, List.take_of_length_le hall]
  | some n =>
    have hn : (max 0 n).toNat = n.toNat := by omega
    simp only [Option.map_some, Option.getD_some, hn, List.extract_eq_take_drop,
      Nat.add_sub_cancel_left]

theorem evalItems_of {s : Setting} {e : Expr} {v : Value} {items : List Value} {st : State}
    (hv : e.eval (s.view st) s.around.strict = .ok v) (hi : v.toList? = .ok items) :
    Run.evalItems s e st = (.ok items, st) := by
  have he : Run.eval s e st = (.ok v, st) := by
    rw [Run.eval_apply, hv]
    rfl
  rw [Run.evalItems, Run.bind_of_ok he, hi]
  rfl

theorem evalCount_of {s : Setting} {e : Option Expr} {value : Option Value} {st : State}
    (h : e.map (fun e => e.eval (s.view st) s.around.strict) = value.map .ok) :
    Run.evalCount s e st = (.ok (value.map fun v => v.toInt 0), st) := by
  cases e with
  | none =>
    cases value with
    | none => rfl
    | some v => cases h
  | some e =>
    cases value with
    | none => cases h
    | some v =>
      have hv : e.eval (s.view st) s.around.strict = .ok v := Option.some.inj h
      have he : Run.eval s e st = (.ok v, st) := by
        rw [Run.eval_apply, hv]
        rfl
      rw [Run.evalCount, Run.bind_of_ok he]
      rfl

theorem perform_of_ok {α : Type} {run : Run α} {next : Machine → α → Machine} {x : α} {st : State}
    (h : run m.state = (.ok x, st)) : m.perform run next = next { m with state := st } x := by
  unfold perform
  rw [h]

/-- **A loop visits its items.** Where the expressions of a loop have values, it has the items of
the slice that they say.  Without any, it goes on with the nodes behind the loop's own.  Otherwise it
visits them one after the other, each once, until one visit is left or fails; a visit that is
continued ends, and the next one begins where the rendering stands then.  Whatever a body does, at
every point of a visit the target means the item, and the loop shows which visit of how many it is,
except behind frames of the body that bind these names themselves. -/
theorem loop_visits {pos : Position} {head : LoopHead} {otherwise : List Node} {items : List Value}
    {offset limit : Option Value} (hc : m.control = .node (.loop pos head body otherwise))
    (ht : head.target ≠ "forloop") (hv : head.items.eval m.view m.around.strict = .ok v)
    (hi : v.toList? = .ok items)
    (ho : head.offset.map (fun e => e.eval m.view m.around.strict) = offset.map .ok)
    (hl : head.limit.map (fun e => e.eval m.view m.around.strict) = limit.map .ok)
    (engine : Engine) :
    let chosen := slice items (offset.map fun v => v.toInt 0) (limit.map fun v => v.toInt 0)
      head.reversed
    (chosen = [] → m.step engine = some (m.goOn otherwise)) ∧
      (chosen ≠ [] → ∃ (l : Loop) (w : Machine) (r : Except Stop Unit × State),
        l.length = chosen.length ∧ m.step engine = some w ∧
        w.state = { m.state with positions := w.state.positions } ∧
        Visits engine m l head.target body 0 chosen w r) := by
  intro chosen
  have hitems : Run.loopItems (m.setting engine) head m.state = (.ok chosen, m.state) := by
    have hi : Run.evalItems (m.setting engine) head.items m.state = _ := evalItems_of hv hi
    have ho : Run.evalCount (m.setting engine) head.offset m.state = _ := evalCount_of ho
    have hl : Run.evalCount (m.setting engine) head.limit m.state = _ := evalCount_of hl
    rw [Run.loopItems, Run.bind_of_ok hi, Run.bind_of_ok ho, Run.bind_of_ok hl, part_eq_slice]
    rfl
  have hstep : m.step engine = some (m.node engine (.loop pos head body otherwise)) := by
    unfold step
    rw [hc]
  rw [hstep, node, perform_of_ok hitems]
  cases chosen with
  | nil => exact ⟨fun _ => rfl, fun h => absurd rfl h⟩
  | cons v rest =>
    refine ⟨fun h => (List.cons_ne_nil _ _ h).elim, fun _ => ?_⟩
    let l : Loop := ⟨m.state.positions.size, (v :: rest).length, 0, Run.enclosingLoop m.view⟩
    let st : State := { m.state with positions := m.state.positions.push (some 0) }
    have hid : l.id < st.positions.size := by
      rw [Array.size_push]
      exact Nat.lt_succ_self _
    obtain ⟨r, hr⟩ := exists_visits ht (v :: rest) 0 [("forloop", .loop l)] (.ok ()) st (.inl rfl)
      (fun _ => rfl) hid
    exact ⟨l, _, r, rfl, rfl, rfl, hr⟩

/-- A loop over a list, from its second item on and backwards. -/
def backwardsHead : LoopHead where
  target := "n"
  items := .name ⟨0, 1, 0⟩ "list"
  limit := none
  offset := some (.const ⟨0, 1, 0⟩ (.number (.int 1)))
  reversed := true

/-- The machine at this loop, with a body that writes the item and goes on. -/
def backwardsMachine : Machine where
  control := .node (.loop ⟨0, 1, 0⟩ backwardsHead
    [.output ⟨0, 1, 0⟩ (some (.name ⟨0, 1, 0⟩ "n")) [] false false, .signal ⟨0, 1, 0⟩ .next] [])
  stack := []
  around := ⟨[], [("list", .list [.int 1, .int 2, .int 3])], [], false⟩
  place := none
  state := { shelf := { cache := { maxSize := 1, label := "" } } }

/-- It visits the third item and then the second. -/
theorem loop_visits_backwards :
    ∃ l w r body, l.length = 2 ∧ backwardsMachine.step ⟨none, {}, {}⟩ = some w ∧
      Visits ⟨none, {}, {}⟩ backwardsMachine l "n" body 0 [.int 3, .int 2] w r := by
  have hv : backwardsHead.items.eval backwardsMachine.view backwardsMachine.around.strict =
      .ok (.list [.int 1, .int 2, .int 3]) := rfl
  have ho : backwardsHead.offset.map (fun e =>
      e.eval backwardsMachine.view backwardsMachine.around.strict) = (some (.int 1)).map .ok := rfl
  have hl : backwardsHead.limit.map (fun e =>
      e.eval backwardsMachine.view backwardsMachine.around.strict) = none.map .ok := rfl
  obtain ⟨-, h⟩ := loop_visits rfl (by decide) hv (Value.toList?_list _) ho hl ⟨none, {}, {}⟩
  obtain ⟨l, w, r, hlength, hs, -, hvisits⟩ := h (List.cons_ne_nil _ _)
  exact ⟨l, w, r, _, hlength, hs, hvisits⟩

end Machine

end Liquid
