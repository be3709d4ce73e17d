import Liquid.Proofs.Reading.Run
import Liquid.Proofs.Reading.Signals

/-!
# Nodes stand where their tokens stand

Every node of a template and every call of a filter in it was read at a token, so what holds of the
places of all tokens holds of theirs, at whatever depth of blocks they stand.  Places count lines
from one.

**Invariant.** The nodes that have been read, the bodies of the open blocks, and what stands before
these blocks are at such places.

* `placed_item`, `placed_reads`: one item of a source keeps the invariant, and so do all.
* `placed_of_parse`: all nodes of a source, and all calls of filters, stand at places of it.
* `Position.In.line_pos`: these have positive lines.
-/
namespace Liquid

namespace Node

/-- The calls of filters in a node itself. -/
def calls : Node → List FilterCall
  | .output _ _ filters _ _ | .assign _ _ _ filters => filters
  | _ => []

/-- Nodes that stand at places with a property, with their calls of filters and all their bodies. -/
inductive Placed (P : Position → Prop) : List Node → Prop where
  | of {nodes : List Node} :
    (∀ n ∈ nodes, P n.pos) → (∀ n ∈ nodes, ∀ call ∈ n.calls, P call.pos) →
    (∀ n ∈ nodes, ∀ body ∈ n.bodies, Placed P body) → Placed P nodes

variable {P : Position → Prop} {nodes rest : List Node} {n : Node}

theorem placed_iff : Placed P nodes ↔
    ∀ n ∈ nodes, P n.pos ∧ (∀ call ∈ n.calls, P call.pos) ∧ ∀ body ∈ n.bodies, Placed P body := by
  constructor
  · rintro ⟨hp, hc, hb⟩ n hn
    exact ⟨hp n hn, hc n hn, hb n hn⟩
  · intro h
    exact .of (fun n hn => (h n hn).1) (fun n hn => (h n hn).2.1) fun n hn => (h n hn).2.2

theorem placed_nil : Placed P [] := placed_iff.2 fun _ h => absurd h List.not_mem_nil

theorem placed_singleton : Placed P [n] ↔
    P n.pos ∧ (∀ call ∈ n.calls, P call.pos) ∧ ∀ body ∈ n.bodies, Placed P body := by
  rw [placed_iff, List.forall_mem_singleton]

theorem placed_cons : Placed P (n :: nodes) ↔ Placed P [n] ∧ Placed P nodes := by
  rw [placed_singleton, placed_iff, placed_iff, List.forall_mem_cons]

theorem placed_reverse : Placed P nodes.reverse ↔ Placed P nodes := by
  rw [placed_iff, placed_iff]
  simp only [List.mem_reverse]

/-- A node without bodies and without filters. -/
theorem placed_leaf (hp : P n.pos) (hc : n.calls = []) (hb : n.bodies = []) : Placed P [n] := by
  rw [placed_singleton, hc, hb]
  exact ⟨hp, List.forall_mem_nil _, List.forall_mem_nil _⟩

end Node

open Node (placed_nil placed_singleton placed_cons placed_reverse placed_leaf)

/-! ## Open blocks -/

/-- The bodies of a block that are read. -/
def BlockKind.bodies : BlockKind → List (List Node)
  | .conditional _ _ body branches _ => body :: branches.map Branch.body
  | .loop _ body => body.toList
  | .choice _ whens _ => whens.map When.body
  | .capture _ | .host _ _ _ => []

namespace OpenBlock

variable {b b' : OpenBlock} {nodes : List Node}

theorem pos_close (b : OpenBlock) (nodes : List Node) : (b.close nodes).pos = b.pos := by
  unfold close
  split <;> (try split) <;> rfl

/-- An open block at such a place, with what it has read and what stands before it. -/
structure Placed (P : Position → Prop) (b : OpenBlock) : Prop where
  pos : P b.pos
  bodies : ∀ body ∈ b.kind.bodies, Node.Placed P body
  before : Node.Placed P b.before

/-- Bodies that a block has read, but for the last one, `nodes`. -/
def Reads (b : OpenBlock) (nodes : List Node) (bodies : List (List Node)) : Prop :=
  ∀ body ∈ bodies, body ∈ b.kind.bodies ∨ body = [] ∨ body = nodes

theorem calls_close (b : OpenBlock) (nodes : List Node) : (b.close nodes).calls = [] := by
  unfold close
  split <;> (try split) <;> rfl

theorem reads_close (b : OpenBlock) (nodes : List Node) : b.Reads nodes (b.close nodes).bodies := by
  obtain ⟨pos, kind, before⟩ := b
  cases kind with
  | conditional negated test body branches part =>
    cases part <;> grind [Reads, close, Node.bodies, BlockKind.bodies]
  | loop head body => cases body <;> grind [Reads, close, Node.bodies, BlockKind.bodies]
  | choice subject whens part => cases part <;> grind [Reads, close, Node.bodies, BlockKind.bodies]
  | capture name => grind [Reads, close, Node.bodies, BlockKind.bodies]
  | host name arguments markup => grind [Reads, close, Node.bodies, BlockKind.bodies]

theorem reads_elsif {test : Expr} (h : b.elsif? nodes test = some b') :
    b.Reads nodes b'.kind.bodies := by
  obtain ⟨pos, kind, before⟩ := b
  cases kind with
  | conditional negated test body branches part =>
    cases part <;> grind [Reads, elsif?, BlockKind.bodies]
  | _ => cases h

theorem reads_else (h : b.else? nodes = some b') : b.Reads nodes b'.kind.bodies := by
  obtain ⟨pos, kind, before⟩ := b
  cases kind with
  | conditional negated test body branches part =>
    cases part <;> grind [Reads, else?, BlockKind.bodies]
  | loop head body => cases body <;> grind [Reads, else?, BlockKind.bodies]
  | choice subject whens part => cases part <;> grind [Reads, else?, BlockKind.bodies]
  | _ => cases h

theorem reads_when {pos : Position} {values : List Expr} (h : b.when? nodes pos values = some b') :
    b.Reads nodes b'.kind.bodies := by
  obtain ⟨pos, kind, before⟩ := b
  cases kind with
  | choice subject whens part => cases part <;> grind [Reads, when?, BlockKind.bodies]
  | _ => cases h

theorem reads_getD {o : Option OpenBlock}
    (h : ∀ b', o = some b' → b.Reads nodes b'.kind.bodies) :
    b.Reads nodes (o.getD b).kind.bodies := by
  cases o with
  | none => exact fun body hb => .inl hb
  | some b' => exact h b' rfl

end OpenBlock

/-- A tag adds a node at such a place, or it begins a block that has read nothing yet. -/
def TagEffect.Placed (P : Position → Prop) : TagEffect → Prop
  | .add n => Node.Placed P [n]
  | .begin kind => ∀ body ∈ kind.bodies, body = []

namespace Reading

variable {P : Position → Prop} {s : List Token}

/-! ## Tags -/

theorem Takes.subset {α : Type} {n : Nat} {close : Option Token.Kind} {p : Parsed α n}
    (h : Takes close s (.ok p : Reading α n)) : p.rest ⊆ s := by
  obtain ⟨inner, last, rfl, -, -⟩ := h
  exact fun t ht => List.mem_append_right inner (List.mem_append_right last ht)

/-- A reader behind another, at what that one has left. -/
theorem gives_bind_takes {α β : Type} {n k : Nat} {close : Option Token.Kind} {Q : β → Prop}
    {r : Reading α n} {f : Parsed α n → Reading β k} (h : Takes close s r)
    (hf : ∀ p, p.rest ⊆ s → Gives Q (f p)) : Gives Q (r >>= f) := by
  cases r with
  | ok p => exact hf p (Takes.subset h)
  | error e => trivial

theorem gives_filters (ending : Token.Kind) {s : List Token} (h : ∀ t ∈ s, P t.position) :
    Gives (fun calls => ∀ call ∈ calls, P call.pos) (FilterCall.filters ending s) := by
  rw [FilterCall.filters.eq_def]
  split
  · exact List.forall_mem_nil _
  · rename_i t rest
    split
    · split
      · trivial
      · rename_i name rest
        have hr : ∀ u ∈ rest, P u.position := fun u hu => h u (.tail t (.tail name hu))
        by_cases hn : name.kind = .name
        · rw [if_neg (not_not_intro hn)]
          refine gives_bind_takes (FilterCall.takes_arguments name.text rest) fun args ha => ?_
          have hl := args.within
          dsimp only
          split
          · trivial
          · refine gives_bind (gives_filters ending fun u hu => hr u (ha hu)) fun more hm => ?_
            exact List.forall_mem_cons.2 ⟨h name (.tail t (.head rest)), hm⟩
        · rw [if_pos hn]
          trivial
    · exact List.forall_mem_nil _
termination_by s.length
decreasing_by all_goals (subst_vars; simp only [List.length_cons]; omega)

theorem placed_output {begin : Token} (hb : P begin.position) (h : ∀ t ∈ s, P t.position) :
    Gives (fun n => Node.Placed P [n]) (output begin s) := by
  unfold output
  split
  · exact gives_of_forall fun _ => placed_leaf hb rfl rfl
  · refine gives_bind_takes (Expr.takes_primary s) fun value hv => ?_
    refine gives_bind (gives_filters .variableEnd fun t ht => h t (hv ht)) fun filters hf => ?_
    refine gives_of_forall fun _ => placed_singleton.2 ⟨hb, hf, List.forall_mem_nil _⟩

theorem placed_assign {pos : Position} (hp : P pos) (h : ∀ t ∈ s, P t.position) :
    Gives (fun n => Node.Placed P [n]) (assign pos s) := by
  refine gives_bind_takes (takes_expectName _ s) fun name hn => ?_
  refine gives_bind_takes (takes_expect rfl _ name.rest) fun sign hs => ?_
  refine gives_bind_takes (Expr.takes_primary sign.rest) fun value hv => ?_
  refine gives_bind (gives_filters .blockEnd fun t ht => h t (hn (hs (hv ht)))) fun filters hf => ?_
  exact gives_of_forall fun _ => placed_singleton.2 ⟨hp, hf, List.forall_mem_nil _⟩

theorem placed_note {pos : Position} (hp : P pos) :
    Gives (fun n => Node.Placed P [n]) (note pos s) :=
  gives_of_forall fun _ => gives_of_forall fun _ => placed_leaf hp rfl rfl

theorem placed_includeTag {pos : Position} (hp : P pos) :
    Gives (fun n => Node.Placed P [n]) (includeTag pos s) :=
  gives_of_forall fun _ => gives_of_forall fun _ => placed_leaf hp rfl rfl

theorem placed_renderTag {pos : Position} (hp : P pos) :
    Gives (fun n => Node.Placed P [n]) (renderTag pos s) := by
  unfold renderTag
  split
  · trivial
  · exact gives_of_forall fun _ => gives_of_forall fun _ => placed_leaf hp rfl rfl

theorem placed_tag (g : Grammar) (inLoop : Bool) {keyword : Token} (hk : P keyword.position)
    (h : ∀ t ∈ s, P t.position) : Gives (TagEffect.Placed P) (tag g inLoop keyword s) := by
  have add {k : Nat} {r : Reading Node k} (h : Gives (fun n => Node.Placed P [n]) r) :
      Gives (TagEffect.Placed P) (do return ((← r).map TagEffect.add).optional) :=
    gives_bind h fun _ hn => hn
  have signal (what : Signal) : Gives (TagEffect.Placed P) (do
      if !inLoop then throw ((Mistake.outsideLoop keyword.text).at keyword)
      let close ← expectKind .blockEnd s
      return (close.map fun _ => TagEffect.add (.signal keyword.position what)).optional :
        Reading TagEffect (s.length + 1)) := by
    cases inLoop with
    | false => trivial
    | true => exact gives_of_forall fun _ => placed_leaf hk rfl rfl
  unfold tag
  dsimp only
  split
  · rename_i hasBody _
    refine gives_of_forall fun args => ?_
    cases hasBody with
    | true => exact List.forall_mem_nil _
    | false =>
      refine placed_singleton.2 ⟨hk, List.forall_mem_nil _, List.forall_mem_singleton.2 placed_nil⟩
  · split
    · exact gives_of_forall fun _ => List.forall_mem_singleton.2 rfl
    · exact gives_of_forall fun _ => List.forall_mem_singleton.2 rfl
    · exact gives_of_forall fun _ => List.forall_mem_nil _
    · exact gives_of_forall fun _ => gives_of_forall fun _ => List.forall_mem_nil _
    · exact signal .leave
    · exact signal .next
    · exact add (placed_assign hk h)
    · exact gives_of_forall fun _ => List.forall_mem_nil _
    · exact gives_of_forall fun _ => placed_leaf hk rfl rfl
    · exact gives_of_forall fun _ => placed_leaf hk rfl rfl
    · exact add (placed_note hk)
    · exact add (placed_includeTag hk)
    · exact add (placed_renderTag hk)
    · trivial

theorem reads_branch (b : OpenBlock) (nodes : List Node) (keyword : Token) (s : List Token) :
    Gives (fun b' => b.Reads nodes b'.kind.bodies) (branch b nodes keyword s) := by
  unfold branch
  split
  · exact gives_of_forall fun _ => OpenBlock.reads_getD fun _ => OpenBlock.reads_elsif
  · exact gives_of_forall fun _ => OpenBlock.reads_getD fun _ => OpenBlock.reads_when
  · exact gives_of_forall fun _ => OpenBlock.reads_getD fun _ => OpenBlock.reads_else

/-! ## The invariant -/

/-- The nodes and the open blocks stand at such places. -/
structure Standing (P : Position → Prop) (nodes : List Node) (blocks : List OpenBlock) : Prop where
  nodes : Node.Placed P nodes
  blocks : ∀ b ∈ blocks, b.Placed P

section

variable {nodes : List Node} {blocks outer : List OpenBlock} {b b' : OpenBlock} {n : Node}
  {g : Grammar} {t keyword : Token}

theorem Standing.add (h : Standing P nodes blocks) (hn : Node.Placed P [n]) :
    Standing P (n :: nodes) blocks := ⟨placed_cons.2 ⟨hn, h.nodes⟩, h.blocks⟩

theorem Standing.reads (h : Standing P nodes (b :: outer)) {bodies : List (List Node)}
    (hr : b.Reads nodes.reverse bodies) : ∀ body ∈ bodies, Node.Placed P body := by
  intro body hb
  rcases hr body hb with hb | rfl | rfl
  · exact (h.blocks b (.head _)).bodies body hb
  · exact placed_nil
  · exact placed_reverse.2 h.nodes

theorem Standing.close (h : Standing P nodes (b :: outer)) :
    Standing P (b.close nodes.reverse :: b.before) outer := by
  obtain ⟨hb, ho⟩ := List.forall_mem_cons.1 h.blocks
  refine ⟨placed_cons.2 ⟨placed_singleton.2 ⟨?_, ?_, h.reads (b.reads_close _)⟩, hb.before⟩, ho⟩
  · rw [OpenBlock.pos_close]
    exact hb.pos
  · rw [OpenBlock.calls_close]
    exact List.forall_mem_nil _

/-- A branch of the innermost block. -/
theorem Standing.branch (h : Standing P nodes (b :: outer)) (hp : b'.pos = b.pos)
    (hr : b.Reads nodes.reverse b'.kind.bodies) (hb : b'.before = b.before) :
    Standing P [] (b' :: outer) := by
  obtain ⟨hs, ho⟩ := List.forall_mem_cons.1 h.blocks
  exact ⟨placed_nil, List.forall_mem_cons.2 ⟨⟨hp ▸ hs.pos, h.reads hr, hb ▸ hs.before⟩, ho⟩⟩

theorem Standing.open (h : Standing P nodes blocks) {pos : Position} (hp : P pos)
    {kind : BlockKind} (hk : ∀ body ∈ kind.bodies, body = []) :
    Standing P [] (⟨pos, kind, nodes⟩ :: blocks) :=
  ⟨placed_nil, List.forall_mem_cons.2
    ⟨⟨hp, fun body hb => hk body hb ▸ placed_nil, h.nodes⟩, h.blocks⟩⟩

theorem placed_blockTag {p : Progress (t :: keyword :: s).length} (h : Standing P nodes blocks)
    (hp : blockTag g nodes blocks t keyword s = .ok p) : Standing P p.nodes p.blocks := by
  unfold blockTag at hp
  split at hp
  · split at hp <;> cases hp
  · rename_i b outer
    split at hp
    · have hr := reads_branch b nodes.reverse keyword s
      have hg := gains_branch b nodes.reverse keyword s
      cases hb : Reading.branch b nodes.reverse keyword s with
      | error e => rw [hb] at hp; cases hp
      | ok b' =>
        rw [hb] at hp hr hg
        cases hp
        exact h.branch (pos_branch hb) hr hg.2
    · cases he : endTag g b.name b.pos (t :: keyword :: s) with
      | error e => rw [he] at hp; cases hp
      | ok ending =>
        rw [he] at hp
        cases hp
        exact h.close

theorem placed_anyTag {p : Progress (t :: s).length} (h : Standing P nodes blocks)
    (hs : ∀ u ∈ s, P u.position) (hp : anyTag g nodes blocks t s = .ok p) :
    Standing P p.nodes p.blocks := by
  cases s with
  | nil => cases hp
  | cons keyword s =>
    obtain ⟨hk, hs⟩ := List.forall_mem_cons.1 hs
    rw [anyTag] at hp
    split at hp
    · cases hp
    · split at hp
      · cases hp
      · split at hp
        · exact placed_blockTag h hp
        · have ht := placed_tag g (inLoop blocks) hk hs
          cases he : tag g (inLoop blocks) keyword s with
          | error e => rw [inLoop] at he; rw [he] at hp; cases hp
          | ok effect =>
            rw [he] at ht
            rw [inLoop] at he
            rw [he] at hp
            change TagEffect.Placed _ effect.value at ht
            change (match effect.value with | .add node => _ | .begin kind => _) = _ at hp
            generalize effect.value = e at ht hp
            cases e with
            | add node => cases hp; exact h.add ht
            | begin kind => cases hp; exact h.open hk ht

/-- One item keeps what has been read at such places. -/
theorem placed_item {p : Progress (t :: s).length} (h : Standing P nodes blocks)
    (ht : P t.position) (hs : ∀ u ∈ s, P u.position) (hp : item g nodes blocks t s = .ok p) :
    Standing P p.nodes p.blocks := by
  unfold item at hp
  split at hp
  · cases hp
    exact h.add (placed_leaf ht rfl rfl)
  · have ho := placed_output ht hs
    cases hn : output t s with
    | error e => rw [hn] at hp; cases hp
    | ok node =>
      rw [hn] at hp ho
      cases hp
      exact h.add ho
  · exact placed_anyTag h hs hp
  · cases hp

end

end Reading

/-! ## Templates -/

/-- A run of the reader keeps what has been read at such places. -/
theorem Reads.standing {P : Position → Prop} {g : Grammar} {r r' : Reader} {taken : List Token}
    (h : Reads g r taken r') (hr : ∀ t ∈ r.rest, P t.position)
    (hs : Reading.Standing P r.nodes r.blocks) : Reading.Standing P r'.nodes r'.blocks := by
  induction h with
  | stop r => exact hs
  | @item nodes blocks t rest taken later p r hp ht _ _ ih =>
    have hrest : p.rest ⊆ t :: rest := fun u hu => ht ▸ List.mem_append_right taken hu
    obtain ⟨hfirst, hothers⟩ := List.forall_mem_cons.1 hr
    exact ih (fun u hu => hr u (hrest hu)) (Reading.placed_item hs hfirst hothers hp)

/-- The nodes of a source stand at places of it. -/
theorem placed_of_parse {tags : List (String × Bool)} {source : String} {nodes : List Node}
    (h : parse tags source = .ok nodes) : Node.Placed (Position.In source.toList) nodes := by
  unfold parse at h
  cases ht : tokenize source with
  | error e => rw [ht] at h; cases h
  | ok tokens =>
    rw [ht] at h
    have hends := ends_parseTokens ⟨tags, some source.toList⟩ (ending_tokenize ht)
    change parseTokens _ tokens = .ok nodes at h
    rw [h] at hends
    obtain ⟨taken, mark, -, hr⟩ := hends
    have hs := hr.standing (position_tokenize ht)
      ⟨placed_nil, fun b hb => absurd hb List.not_mem_nil⟩
    exact placed_reverse.1 hs.nodes

theorem Position.line_le_foldl_step (text : List Char) (p : Position) :
    p.line ≤ (text.foldl step p).line := by
  induction text generalizing p with
  | nil => exact Nat.le_refl _
  | cons c rest ih =>
    refine Nat.le_trans ?_ (ih (p.step c))
    unfold step
    split <;> simp only [] <;> omega

/-- Lines are counted from one. -/
theorem Position.In.line_pos {source : List Char} {p : Position} (h : p.In source) :
    0 < p.line := by
  obtain ⟨before, -, rfl⟩ := h
  exact line_le_foldl_step before start

end Liquid
