import Liquid.Template

/-!
# Signals stand in loops

A signal leaves a loop or goes on with its next item, so it may stand only where there is a loop to
take it: in the body of one, at whatever depth of other blocks.  What is rendered when a loop has
nothing to go through is not part of its body.

**Invariant.** While no body of a loop is open, neither the nodes that have been read nor the parts
of the open blocks hold a signal outside the loops among them.

* `Node.In`: a node stands among some nodes, and in no loop body among them.
* `caught_item`: one item keeps the invariant.
* `closed_of_parse`: in the nodes of a source, every signal stands in the body of a loop.
-/
namespace Liquid

namespace Node

/-- The bodies of a node that stand in the same loop body as the node itself.  The body of a loop is
none of them. -/
def parts : Node → List (List Node)
  | .conditional _ _ _ body branches otherwise => body :: otherwise :: branches.map Branch.body
  | .loop _ _ _ otherwise => [otherwise]
  | .choice _ _ whens otherwise => otherwise :: whens.map When.body
  | .capture _ _ body => [body]
  | .tag _ _ _ body _ => [body]
  | _ => []

/-- A node stands among some nodes, and in no loop body among them. -/
inductive In (nodes : List Node) : Node → Prop where
  | here {n : Node} : n ∈ nodes → In nodes n
  | part {n x : Node} {body : List Node} : In nodes n → body ∈ n.parts → x ∈ body → In nodes x

/-- Every signal among some nodes stands in the body of a loop among them. -/
def Closed (nodes : List Node) : Prop := ∀ pos signal, ¬ In nodes (.signal pos signal)

variable {nodes rest body : List Node} {n x : Node}

theorem In.within (hn : In nodes n) (hb : body ∈ n.parts) (h : In body x) : In nodes x := by
  induction h with
  | here hx => exact .part hn hb hx
  | part _ hb' hx ih => exact .part ih hb' hx

/-- What stands among some nodes is one of them or stands in a part of one of them. -/
theorem In.cases_head (h : In nodes x) :
    ∃ n ∈ nodes, x = n ∨ ∃ body ∈ n.parts, In body x := by
  induction h with
  | here hx => exact ⟨_, hx, .inl rfl⟩
  | @part y x body _ hb hx ih =>
    obtain ⟨n, hn, rfl | ⟨outer, ho, hy⟩⟩ := ih
    · exact ⟨_, hn, .inr ⟨body, hb, .here hx⟩⟩
    · exact ⟨n, hn, .inr ⟨outer, ho, .part hy hb hx⟩⟩

theorem closed_nil : Closed [] := by
  intro pos signal h
  obtain ⟨n, hn, -⟩ := h.cases_head
  exact absurd hn List.not_mem_nil

theorem closed_iff : Closed nodes ↔
    ∀ n ∈ nodes, (∀ pos signal, n ≠ .signal pos signal) ∧ ∀ body ∈ n.parts, Closed body := by
  constructor
  · intro h n hn
    refine ⟨fun pos signal he => h pos signal (.here (he ▸ hn)), fun body hb pos signal hx => ?_⟩
    exact h pos signal (.within (.here hn) hb hx)
  · intro h pos signal hx
    obtain ⟨n, hn, he | ⟨body, hb, hx⟩⟩ := hx.cases_head
    · exact (h n hn).1 pos signal he.symm
    · exact (h n hn).2 body hb pos signal hx

theorem closed_cons : Closed (n :: rest) ↔ Closed [n] ∧ Closed rest := by
  rw [closed_iff, closed_iff, closed_iff, List.forall_mem_cons, List.forall_mem_singleton]

theorem closed_reverse : Closed nodes.reverse ↔ Closed nodes := by
  rw [closed_iff, closed_iff]
  simp only [List.mem_reverse]

/-- A node that is no signal and has no parts. -/
theorem closed_leaf (hs : ∀ pos signal, n ≠ .signal pos signal) (hp : n.parts = []) :
    Closed [n] := by
  rw [closed_iff, List.forall_mem_singleton, hp]
  exact ⟨hs, fun _ h => absurd h List.not_mem_nil⟩

end Node

open Node

/-! ## Open blocks -/

/-- The parts of a block that are read, but for the body of a loop. -/
def BlockKind.parts : BlockKind → List (List Node)
  | .conditional _ _ body branches _ => body :: branches.map Branch.body
  | .choice _ whens _ => whens.map When.body
  | _ => []

namespace OpenBlock

variable {b b' : OpenBlock} {nodes body : List Node} {parts : List (List Node)}

/-- What a block has read when one more of its bodies, `nodes`, is read. -/
def Gains (b : OpenBlock) (nodes : List Node) (parts : List (List Node)) : Prop :=
  ∀ body ∈ parts, body ∈ b.kind.parts ∨ body = [] ∨ body = nodes ∧ b.isLoopBody = false

theorem gains_refl : b.Gains nodes b.kind.parts := fun _ h => .inl h

theorem gains_nil : b.Gains nodes [] := fun _ h => absurd h List.not_mem_nil

theorem Gains.kept (h : b.Gains nodes parts) (hb : body ∈ b.kind.parts) :
    b.Gains nodes (body :: parts) := List.forall_mem_cons.2 ⟨.inl hb, h⟩

theorem Gains.empty (h : b.Gains nodes parts) : b.Gains nodes ([] :: parts) :=
  List.forall_mem_cons.2 ⟨.inr (.inl rfl), h⟩

theorem Gains.read (h : b.Gains nodes parts) (hl : b.isLoopBody = false) :
    b.Gains nodes (nodes :: parts) := List.forall_mem_cons.2 ⟨.inr (.inr ⟨rfl, hl⟩), h⟩

theorem Gains.read_last (h : b.Gains nodes parts) (hl : b.isLoopBody = false) :
    b.Gains nodes (parts ++ [nodes]) :=
  List.forall_mem_append.2 ⟨h, gains_nil.read hl⟩

section

variable {pos : Position} {before : List Node}

/-- The branches of a conditional that is read up to the end of one of them. -/
theorem gains_branches {negated : Bool} {test : Expr} {branches : List (Branch Node)}
    {part : ConditionalPart} (t : Expr) :
    Gains ⟨pos, .conditional negated test body branches part, before⟩ nodes
      ((branches ++ [Branch.mk t nodes]).map Branch.body) := by
  rw [List.map_append]
  exact Gains.read_last (fun _ h => .inl (.tail body h)) rfl

/-- The branches of a choice that is read up to the end of one of them. -/
theorem gains_whens {subject : Expr} {whens : List (When Node)} {part : ChoicePart}
    (p : Position) (values : List Expr) :
    Gains ⟨pos, .choice subject whens part, before⟩ nodes
      ((whens ++ [When.mk p values nodes]).map When.body) := by
  rw [List.map_append]
  exact gains_refl.read_last rfl

end

theorem gains_close : b.Gains nodes (b.close nodes).parts := by
  obtain ⟨pos, kind, before⟩ := b
  cases kind with
  | conditional negated test body branches part =>
    cases part with
    | body => exact gains_nil.empty.read rfl
    | branch t => exact (gains_branches t).empty.kept (.head _)
    | otherwise =>
      have hbranches : Gains ⟨pos, .conditional negated test body branches .otherwise, before⟩
          nodes (branches.map Branch.body) := fun _ h => .inl (.tail body h)
      exact (hbranches.read rfl).kept (.head _)
  | loop head body =>
    cases body with
    | none => exact gains_nil.empty
    | some body => exact gains_nil.read rfl
  | choice subject whens part =>
    cases part with
    | preamble => exact gains_nil.empty
    | branch p values => exact (gains_whens p values).empty
    | otherwise => exact gains_refl.read rfl
  | capture name | host name arguments markup => exact gains_nil.read rfl

theorem gains_elsif {test : Expr} (h : b.elsif? nodes test = some b') :
    b.Gains nodes b'.kind.parts ∧ b'.before = b.before := by
  obtain ⟨pos, kind, before⟩ := b
  cases kind with
  | conditional negated test body branches part =>
    cases part with
    | body => cases h; exact ⟨gains_nil.read rfl, rfl⟩
    | branch t => cases h; exact ⟨(gains_branches t).kept (.head _), rfl⟩
    | otherwise => cases h
  | _ => cases h

theorem gains_else (h : b.else? nodes = some b') :
    b.Gains nodes b'.kind.parts ∧ b'.before = b.before := by
  obtain ⟨pos, kind, before⟩ := b
  cases kind with
  | conditional negated test body branches part =>
    cases part with
    | body => cases h; exact ⟨gains_nil.read rfl, rfl⟩
    | branch t => cases h; exact ⟨(gains_branches t).kept (.head _), rfl⟩
    | otherwise => cases h
  | loop head body =>
    cases body with
    | none => cases h; exact ⟨gains_nil, rfl⟩
    | some body => cases h
  | choice subject whens part =>
    cases part with
    | preamble => cases h; exact ⟨gains_nil, rfl⟩
    | branch p values => cases h; exact ⟨gains_whens p values, rfl⟩
    | otherwise => cases h
  | _ => cases h

theorem gains_when {pos : Position} {values : List Expr}
    (h : b.when? nodes pos values = some b') :
    b.Gains nodes b'.kind.parts ∧ b'.before = b.before := by
  obtain ⟨pos, kind, before⟩ := b
  cases kind with
  | choice subject whens part =>
    cases part with
    | preamble => cases h; exact ⟨gains_nil, rfl⟩
    | branch p values => cases h; exact ⟨gains_whens p values, rfl⟩
    | otherwise => cases h
  | _ => cases h

/-- A block that may have gone on with another branch. -/
theorem gains_getD {o : Option OpenBlock}
    (h : ∀ b', o = some b' → b.Gains nodes b'.kind.parts ∧ b'.before = b.before) :
    b.Gains nodes (o.getD b).kind.parts ∧ (o.getD b).before = b.before := by
  cases o with
  | none => exact ⟨gains_refl, rfl⟩
  | some b' => exact h b' rfl

end OpenBlock

namespace Reading

/-! ## Tags -/

section

variable {α β : Type} {n k : Nat} {P : α → Prop} {Q : β → Prop} {s : List Token}

/-- What holds of that which a reader gives, if it gives anything. -/
def Gives (P : α → Prop) : Reading α n → Prop
  | .ok p => P p.value
  | .error _ => True

theorem gives_bind {r : Reading α n} {f : Parsed α n → Reading β k} (h : Gives P r)
    (hf : ∀ p, P p.value → Gives Q (f p)) : Gives Q (r >>= f) := by
  cases r with
  | ok p => exact hf p h
  | error e => trivial

theorem gives_any (r : Reading α n) : Gives (fun _ => True) r := by
  cases r <;> trivial

/-- A reader whose value is made of what another one gives. -/
theorem gives_of_forall {r : Reading α n} {f : Parsed α n → Reading β k}
    (hf : ∀ p, Gives Q (f p)) : Gives Q (r >>= f) :=
  gives_bind (gives_any r) fun p _ => hf p

end

/-- A tag that adds a node with a signal stands in the body of a loop, and a block that begins has
read nothing yet. -/
def TagEffect.Caught (inLoop : Bool) : TagEffect → Prop
  | .add n => inLoop = false → Closed [n]
  | .begin kind => ∀ body ∈ kind.parts, body = []

theorem gives_output (begin : Token) (s : List Token) :
    Gives (fun n => Closed [n]) (output begin s) := by
  unfold output
  split
  · exact gives_of_forall fun _ => closed_leaf (fun _ _ => Node.noConfusion) rfl
  · refine gives_of_forall fun _ => gives_of_forall fun _ => gives_of_forall fun _ => ?_
    exact closed_leaf (fun _ _ => Node.noConfusion) rfl

theorem gives_assign (pos : Position) (s : List Token) :
    Gives (fun n => Closed [n]) (assign pos s) := by
  refine gives_of_forall fun _ => gives_of_forall fun _ => gives_of_forall fun _ => ?_
  refine gives_of_forall fun _ => gives_of_forall fun _ => ?_
  exact closed_leaf (fun _ _ => Node.noConfusion) rfl

theorem gives_note (pos : Position) (s : List Token) :
    Gives (fun n => Closed [n]) (note pos s) := by
  refine gives_of_forall fun _ => gives_of_forall fun _ => ?_
  exact closed_leaf (fun _ _ => Node.noConfusion) rfl

theorem gives_includeTag (pos : Position) (s : List Token) :
    Gives (fun n => Closed [n]) (includeTag pos s) := by
  refine gives_of_forall fun _ => gives_of_forall fun _ => ?_
  exact closed_leaf (fun _ _ => Node.noConfusion) rfl

theorem gives_renderTag (pos : Position) (s : List Token) :
    Gives (fun n => Closed [n]) (renderTag pos s) := by
  unfold renderTag
  split
  · trivial
  · refine gives_of_forall fun _ => gives_of_forall fun _ => ?_
    exact closed_leaf (fun _ _ => Node.noConfusion) rfl

theorem gives_tag (g : Grammar) (inLoop : Bool) (keyword : Token) (s : List Token) :
    Gives (TagEffect.Caught inLoop) (tag g inLoop keyword s) := by
  have add {k : Nat} {r : Reading Node k} (h : Gives (fun n => Closed [n]) r) :
      Gives (TagEffect.Caught inLoop) (do return ((← r).map TagEffect.add).optional) :=
    gives_bind h fun _ hn _ => hn
  have signal (what : Signal) : Gives (TagEffect.Caught inLoop) (do
      if !inLoop then throw ((Mistake.outsideLoop keyword.text).at keyword)
      let close ← expectKind .blockEnd s
      return (close.map fun _ => TagEffect.add (.signal keyword.position what)).optional :
        Reading TagEffect (s.length + 1)) := by
    cases inLoop with
    | false => trivial
    | true => exact gives_of_forall fun _ h => nomatch h
  unfold tag
  dsimp only
  split
  · rename_i hasBody _
    refine gives_of_forall fun args => ?_
    cases hasBody with
    | true => exact fun _ h => absurd h List.not_mem_nil
    | false =>
      intro _
      rw [closed_iff, List.forall_mem_singleton]
      exact ⟨fun _ _ => Node.noConfusion, List.forall_mem_singleton.2 closed_nil⟩
  · split
    · exact gives_of_forall fun _ => List.forall_mem_singleton.2 rfl
    · exact gives_of_forall fun _ => List.forall_mem_singleton.2 rfl
    · exact gives_of_forall fun _ _ h => absurd h List.not_mem_nil
    · exact gives_of_forall fun _ => gives_of_forall fun _ _ h => absurd h List.not_mem_nil
    · exact signal .leave
    · exact signal .next
    · exact add (gives_assign _ s)
    · exact gives_of_forall fun _ _ h => absurd h List.not_mem_nil
    · exact gives_of_forall fun _ _ => closed_leaf (fun _ _ => Node.noConfusion) rfl
    · exact gives_of_forall fun _ _ => closed_leaf (fun _ _ => Node.noConfusion) rfl
    · exact add (gives_note _ s)
    · exact add (gives_includeTag _ s)
    · exact add (gives_renderTag _ s)
    · trivial

/-- The block behind one of its branches. -/
theorem gains_branch (b : OpenBlock) (nodes : List Node) (keyword : Token) (s : List Token) :
    Gives (fun b' => b.Gains nodes b'.kind.parts ∧ b'.before = b.before)
      (branch b nodes keyword s) := by
  unfold branch
  split
  · exact gives_of_forall fun _ => OpenBlock.gains_getD fun _ => OpenBlock.gains_elsif
  · exact gives_of_forall fun _ => OpenBlock.gains_getD fun _ => OpenBlock.gains_when
  · exact gives_of_forall fun _ => OpenBlock.gains_getD fun _ => OpenBlock.gains_else

/-! ## The invariant -/

/-- Whether the body of a loop is open. -/
def inLoop (blocks : List OpenBlock) : Bool := blocks.any OpenBlock.isLoopBody

/-- Outside the bodies of loops, no signal has been read, neither among the nodes of the innermost
body nor among the parts of the open blocks and what stands before them. -/
def Caught (nodes : List Node) : List OpenBlock → Prop
  | [] => Closed nodes
  | b :: outer =>
    (inLoop (b :: outer) = false → Closed nodes) ∧
      (inLoop outer = false → ∀ body ∈ b.kind.parts, Closed body) ∧ Caught b.before outer

section

variable {nodes rest : List Node} {blocks outer : List OpenBlock} {b b' : OpenBlock} {n : Node}

theorem Caught.replace (h : Caught nodes blocks)
    (hn : inLoop blocks = false → Closed nodes → Closed rest) : Caught rest blocks := by
  cases blocks with
  | nil => exact hn rfl h
  | cons b outer => exact ⟨fun hl => hn hl (h.1 hl), h.2⟩

theorem Caught.add (h : Caught nodes blocks) (hn : inLoop blocks = false → Closed [n]) :
    Caught (n :: nodes) blocks :=
  h.replace fun hl hc => closed_cons.2 ⟨hn hl, hc⟩

theorem inLoop_cons : inLoop (b :: outer) = (b.isLoopBody || inLoop outer) := rfl

/-- What a block has read when one more of its bodies is read holds no signal outside loops. -/
theorem Caught.gains (h : Caught nodes (b :: outer)) {parts : List (List Node)}
    (hg : b.Gains nodes.reverse parts) (hl : inLoop outer = false) :
    ∀ body ∈ parts, Closed body := by
  intro body hb
  rcases hg body hb with hb | rfl | ⟨rfl, hlb⟩
  · exact h.2.1 hl body hb
  · exact closed_nil
  · refine closed_reverse.2 (h.1 ?_)
    rw [inLoop_cons, hlb, hl]
    rfl

theorem Caught.close (h : Caught nodes (b :: outer)) :
    Caught (b.close nodes.reverse :: b.before) outer := by
  refine h.2.2.add fun hl => ?_
  rw [closed_iff, List.forall_mem_singleton]
  refine ⟨fun pos signal he => ?_, h.gains OpenBlock.gains_close hl⟩
  obtain ⟨pos, kind, before⟩ := b
  unfold OpenBlock.close at he
  split at he <;> first | cases he | (split at he <;> cases he)

theorem Caught.branch (h : Caught nodes (b :: outer)) (hg : b.Gains nodes.reverse b'.kind.parts)
    (hb : b'.before = b.before) : Caught [] (b' :: outer) :=
  ⟨fun _ => closed_nil, h.gains hg, hb ▸ h.2.2⟩

theorem Caught.open (h : Caught nodes blocks) (pos : Position) {kind : BlockKind}
    (hk : ∀ body ∈ kind.parts, body = []) : Caught [] (⟨pos, kind, nodes⟩ :: blocks) :=
  ⟨fun _ => closed_nil, fun _ body hb => hk body hb ▸ closed_nil, h⟩

/-! ## Items -/

variable {g : Grammar} {t keyword : Token} {s : List Token}

theorem caught_blockTag {p : Progress (t :: keyword :: s).length} (h : Caught nodes blocks)
    (hp : blockTag g nodes blocks t keyword s = .ok p) : Caught p.nodes p.blocks := by
  unfold blockTag at hp
  split at hp
  · split at hp <;> cases hp
  · rename_i b outer
    split at hp
    · have hg := gains_branch b nodes.reverse keyword s
      cases hb : Reading.branch b nodes.reverse keyword s with
      | error e => rw [hb] at hp; cases hp
      | ok b' =>
        rw [hb] at hp hg
        cases hp
        exact h.branch hg.1 hg.2
    · cases he : endTag g b.name b.pos (t :: keyword :: s) with
      | error e => rw [he] at hp; cases hp
      | ok ending =>
        rw [he] at hp
        cases hp
        exact h.close

theorem caught_anyTag {p : Progress (t :: s).length} (h : Caught nodes blocks)
    (hp : anyTag g nodes blocks t s = .ok p) : Caught p.nodes p.blocks := by
  cases s with
  | nil => cases hp
  | cons keyword s =>
    rw [anyTag] at hp
    split at hp
    · cases hp
    · split at hp
      · cases hp
      · split at hp
        · exact caught_blockTag h hp
        · have ht := gives_tag g (inLoop blocks) keyword s
          cases he : tag g (inLoop blocks) keyword s with
          | error e => rw [inLoop] at he; rw [he] at hp; cases hp
          | ok effect =>
            rw [he] at ht
            rw [inLoop] at he
            rw [he] at hp
            change TagEffect.Caught _ effect.value at ht
            change (match effect.value with | .add node => _ | .begin kind => _) = _ at hp
            generalize effect.value = e at ht hp
            cases e with
            | add node => cases hp; exact h.add ht
            | begin kind => cases hp; exact h.open _ ht

/-- One item keeps signals inside the bodies of loops. -/
theorem caught_item {p : Progress (t :: s).length} (h : Caught nodes blocks)
    (hp : item g nodes blocks t s = .ok p) : Caught p.nodes p.blocks := by
  unfold item at hp
  split at hp
  · cases hp
    exact h.add fun _ => closed_leaf (fun _ _ => Node.noConfusion) rfl
  · have ho := gives_output t s
    cases hn : output t s with
    | error e => rw [hn] at hp; cases hp
    | ok node =>
      rw [hn] at hp ho
      cases hp
      exact h.add fun _ => ho
  · exact caught_anyTag h hp
  · cases hp

end

end Reading

/-! ## Templates -/

theorem closed_readNodes {g : Grammar} {nodes result : List Node} {blocks : List OpenBlock}
    {s : List Token} (h : Reading.Caught nodes blocks) (hr : readNodes g nodes blocks s = .ok result) :
    Closed result := by
  have finish (hf : Reading.finish nodes blocks = .ok result) : Closed result := by
    cases blocks with
    | nil => cases hf; exact closed_reverse.2 h
    | cons b outer => cases hf
  cases s with
  | nil => rw [readNodes] at hr; exact finish hr
  | cons t rest =>
    rw [readNodes] at hr
    split at hr
    · exact finish hr
    · cases hp : Reading.item g nodes blocks t rest with
      | error e => rw [hp] at hr; cases hr
      | ok p =>
        rw [hp] at hr
        have hl := p.within
        exact closed_readNodes (Reading.caught_item h hp) hr
termination_by s.length

/-- In the nodes of a source, every signal stands in the body of a loop. -/
theorem closed_of_parse {tags : List (String × Bool)} {source : String} {nodes : List Node}
    (h : parse tags source = .ok nodes) : Closed nodes := by
  unfold parse at h
  cases ht : tokenize source with
  | error e => rw [ht] at h; cases h
  | ok tokens =>
    rw [ht] at h
    have h0 : Reading.Caught [] [] := closed_nil
    exact closed_readNodes h0 h

end Liquid
