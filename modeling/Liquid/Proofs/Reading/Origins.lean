import Liquid.Proofs.Reading.Blocks
import Liquid.Proofs.Reading.Echo
import Liquid.Proofs.Reading.Placed

/-!
# Where the tags of the host were read

A tag of the host that stands anywhere in a template was read from one tag of the source: the
keyword gives its name, the words behind that its arguments, and the text of these words is its
markup.

**Invariant.** The nodes that have been read, the bodies of the open blocks, what stands before
these blocks, and the open blocks of the host themselves came from tags among the tokens.

* `Node.Amid`: a node stands among some nodes, at whatever depth of blocks.
* `HostUse.ReadFrom`: a tag of the host, from its opening delimiter to its closing one.
* `uses_item`, `Reads.uses`: one item of a source keeps the invariant, and so does a run.
* `origin_of_parse`: every tag of the host in a template was read from a tag of the source.
-/
namespace Liquid

/-- How a tag of the host is used: its name, its arguments and their text. -/
structure HostUse where
  name : String
  arguments : List Expr
  markup : String

namespace Node

/-- The use of a tag of the host, if the node is one. -/
def use? : Node → Option HostUse
  | .tag _ name arguments _ markup => some ⟨name, arguments, markup⟩
  | _ => none

/-- A node stands among some nodes, or in a body of one of them, and so on. -/
inductive Amid (n : Node) : List Node → Prop where
  | here {nodes : List Node} : n ∈ nodes → Amid n nodes
  | within {m : Node} {body nodes : List Node} :
    m ∈ nodes → body ∈ m.bodies → Amid n body → Amid n nodes

/-- Every tag of the host that stands amid the nodes is used in such a way. -/
def Uses (P : HostUse → Prop) (nodes : List Node) : Prop :=
  ∀ n : Node, n.Amid nodes → ∀ u, n.use? = some u → P u

variable {P : HostUse → Prop} {nodes : List Node} {n : Node}

theorem uses_iff : Uses P nodes ↔
    ∀ n ∈ nodes, (∀ u, n.use? = some u → P u) ∧ ∀ body ∈ n.bodies, Uses P body := by
  constructor
  · intro h n hn
    exact ⟨h n (.here hn), fun body hb m hm => h m (.within hn hb hm)⟩
  · intro h m hm
    cases hm with
    | here hm => exact (h m hm).1
    | within hn hb hm => exact (h _ hn).2 _ hb m hm

theorem uses_nil : Uses P [] := uses_iff.2 fun _ h => absurd h List.not_mem_nil

theorem uses_cons : Uses P (n :: nodes) ↔
    ((∀ u, n.use? = some u → P u) ∧ ∀ body ∈ n.bodies, Uses P body) ∧ Uses P nodes := by
  rw [uses_iff, uses_iff, List.forall_mem_cons]

theorem uses_reverse : Uses P nodes.reverse ↔ Uses P nodes := by
  rw [uses_iff, uses_iff]
  simp only [List.mem_reverse]

end Node

open Node (uses_nil uses_cons uses_reverse)

/-! ## Open blocks -/

/-- The use of a tag of the host, if the block is one. -/
def BlockKind.use? : BlockKind → Option HostUse
  | .host name arguments markup => some ⟨name, arguments, markup⟩
  | _ => none

namespace OpenBlock

variable {b b' : OpenBlock} {nodes : List Node}

theorem use_close (b : OpenBlock) (nodes : List Node) : (b.close nodes).use? = b.kind.use? := by
  obtain ⟨pos, kind, before⟩ := b
  cases kind with
  | conditional negated test body branches part => cases part <;> rfl
  | loop head body => cases body <;> rfl
  | choice subject whens part => cases part <;> rfl
  | capture name => rfl
  | host name arguments markup => rfl

theorem use_of_ofHost (h : b.opener.ofHost = false) : b.kind.use? = none := by
  obtain ⟨pos, kind, before⟩ := b
  cases kind with
  | host name arguments markup => cases h
  | _ => rfl

/-- A block that takes another branch is none of the host. -/
theorem ofHost_of_takes {word : String} (h : b.takes word = true) : b.opener.ofHost = false := by
  obtain ⟨-, hg⟩ | ⟨-, hg⟩ | ⟨-, hg, -⟩ := b.goesOn_of_takes h <;> exact hg.1

/-- An open block that uses tags of the host in such a way, in itself, in what is read of it and in
what stands before it. -/
structure Uses (P : HostUse → Prop) (b : OpenBlock) : Prop where
  own : ∀ u, b.kind.use? = some u → P u
  bodies : ∀ body ∈ b.kind.bodies, Node.Uses P body
  before : Node.Uses P b.before

end OpenBlock

/-! ## Tags -/

/-- A tag adds a node or begins a block, which has read nothing yet and, if it is of the host, is
used in such a way. -/
def TagEffect.Uses (P : HostUse → Prop) : TagEffect → Prop
  | .add n => (∀ u, n.use? = some u → P u) ∧ ∀ body ∈ n.bodies, body = []
  | .begin kind => (∀ u, kind.use? = some u → P u) ∧ ∀ body ∈ kind.bodies, body = []

/-- A tag of the host that is used in this way, from its opening delimiter to its closing one; the
keyword and the words behind it stand between them, and `rest` is behind it. -/
structure HostUse.ReadFrom (g : Grammar) (u : HostUse) (begin keyword : Token) (words : List Token)
    (close : Token) (rest : List Token) : Prop where
  begins : begin.kind = .blockBegin
  named : keyword.kind = .name
  name : keyword.text = u.name
  inner : Inner words
  closes : close.kind = .blockEnd
  free : g.endsBody u.name = false
  known : g.tag? u.name ≠ none
  arguments : Reading.Returns (Reading.hostArguments u.name [] (words ++ close :: rest))
    (u.arguments, close) rest
  markup : u.markup = if u.arguments.isEmpty then "" else
    g.markup (nextToken (words ++ close :: rest)).position close.position

/-- The tokens begin with a tag of the host that is used in this way, and `rest` is behind it. -/
def HostUse.Begins (g : Grammar) (u : HostUse) (s rest : List Token) : Prop :=
  ∃ begin keyword words close, s = begin :: keyword :: (words ++ close :: rest) ∧
    u.ReadFrom g begin keyword words close rest

namespace Reading

variable {P : HostUse → Prop} {g : Grammar} {t keyword : Token} {s : List Token}
  {nodes : List Node} {blocks outer : List OpenBlock} {b b' : OpenBlock} {n : Node}

/-- A node of the language without a body. -/
theorem uses_leaf (hu : n.use? = none) (hb : n.bodies = []) : (TagEffect.add n).Uses P := by
  refine ⟨fun u h => ?_, ?_⟩
  · rw [hu] at h
    cases h
  · rw [hb]
    exact List.forall_mem_nil _

/-- A block of the language that has read nothing yet. -/
theorem uses_begin {kind : BlockKind} (hu : kind.use? = none)
    (hb : ∀ body ∈ kind.bodies, body = []) : (TagEffect.begin kind).Uses P := by
  refine ⟨fun u h => ?_, hb⟩
  rw [hu] at h
  cases h

theorem uses_output (begin : Token) (s : List Token) :
    Gives (fun n => (TagEffect.add n).Uses P) (output begin s) := by
  unfold output
  split
  · exact gives_of_forall fun _ => uses_leaf rfl rfl
  · exact gives_of_forall fun _ => gives_of_forall fun _ => gives_of_forall fun _ =>
      uses_leaf rfl rfl

theorem uses_assign (pos : Position) (s : List Token) :
    Gives (fun n => (TagEffect.add n).Uses P) (assign pos s) :=
  gives_of_forall fun _ => gives_of_forall fun _ => gives_of_forall fun _ =>
    gives_of_forall fun _ => gives_of_forall fun _ => uses_leaf rfl rfl

theorem uses_note (pos : Position) (s : List Token) :
    Gives (fun n => (TagEffect.add n).Uses P) (note pos s) :=
  gives_of_forall fun _ => gives_of_forall fun _ => uses_leaf rfl rfl

theorem uses_includeTag (pos : Position) (s : List Token) :
    Gives (fun n => (TagEffect.add n).Uses P) (includeTag pos s) :=
  gives_of_forall fun _ => gives_of_forall fun _ => uses_leaf rfl rfl

theorem uses_renderTag (pos : Position) (s : List Token) :
    Gives (fun n => (TagEffect.add n).Uses P) (renderTag pos s) := by
  unfold renderTag
  split
  · trivial
  · exact gives_of_forall fun _ => gives_of_forall fun _ => uses_leaf rfl rfl

/-- A tag of the language uses none of the host. -/
theorem uses_languageTag (hg : g.tag? keyword.text = none) (inLoop : Bool) (s : List Token) :
    Gives (TagEffect.Uses P) (tag g inLoop keyword s) := by
  have add {k : Nat} {r : Reading Node k} (h : Gives (fun n => (TagEffect.add n).Uses P) r) :
      Gives (TagEffect.Uses P) (do return ((← r).map TagEffect.add).optional) :=
    gives_bind h fun _ hn => hn
  have signal (what : Signal) : Gives (TagEffect.Uses P) (do
      if !inLoop then throw ((Mistake.outsideLoop keyword.text).at keyword)
      let close ← expectKind .blockEnd s
      return (close.map fun _ => TagEffect.add (.signal keyword.position what)).optional :
        Reading TagEffect (s.length + 1)) := by
    cases inLoop with
    | false => trivial
    | true => exact gives_of_forall fun _ => uses_leaf rfl rfl
  unfold tag
  rw [hg]
  dsimp only
  split
  · exact gives_of_forall fun _ => uses_begin rfl (List.forall_mem_singleton.2 rfl)
  · exact gives_of_forall fun _ => uses_begin rfl (List.forall_mem_singleton.2 rfl)
  · exact gives_of_forall fun _ => uses_begin rfl (List.forall_mem_nil _)
  · exact gives_of_forall fun _ => gives_of_forall fun _ => uses_begin rfl (List.forall_mem_nil _)
  · exact signal .leave
  · exact signal .next
  · exact add (uses_assign _ s)
  · exact gives_of_forall fun _ => uses_begin rfl (List.forall_mem_nil _)
  · exact gives_of_forall fun _ => uses_leaf rfl rfl
  · exact gives_of_forall fun _ => uses_leaf rfl rfl
  · exact add (uses_note _ s)
  · exact add (uses_includeTag _ s)
  · exact add (uses_renderTag _ s)
  · trivial

/-- A tag of the host is used as its tokens tell. -/
theorem uses_tag (ht : t.kind = .blockBegin) (hk : keyword.kind = .name)
    (he : g.endsBody keyword.text = false) {inLoop : Bool} {p : Parsed TagEffect (s.length + 1)}
    (h : tag g inLoop keyword s = .ok p)
    (new : ∀ u : HostUse, u.Begins g (t :: keyword :: s) p.rest → P u) : p.value.Uses P := by
  cases hg : g.tag? keyword.text with
  | none =>
    have hl : Gives (TagEffect.Uses P) (tag g inLoop keyword s) := uses_languageTag hg inLoop s
    rw [h] at hl
    exact hl
  | some hasBody =>
    unfold tag at h
    rw [hg] at h
    cases ha : hostArguments keyword.text [] s with
    | error e => rw [ha] at h; cases h
    | ok args =>
      rw [ha] at h
      cases h
      have hargs : Returns (hostArguments keyword.text [] s) (args.value.1, args.value.2)
          args.rest := ⟨args, ha, rfl, rfl⟩
      obtain ⟨words, hs, hi, hc⟩ := words_of_hostArguments hargs
      have hread : HostUse.Begins g ⟨keyword.text, args.value.1, if args.value.1.isEmpty then ""
          else g.markup (nextToken s).position args.value.2.position⟩ (t :: keyword :: s)
          args.rest := by
        refine ⟨t, keyword, words, args.value.2, by rw [← hs], ht, hk, rfl, hi, hc, he, ?_, ?_, ?_⟩
        · rw [hg]
          exact Option.some_ne_none _
        · rw [← hs]
          exact hargs
        · rw [← hs]
      have hnew := new _ hread
      cases hasBody with
      | true => exact ⟨fun u hu => by cases hu; exact hnew, List.forall_mem_nil _⟩
      | false =>
        exact ⟨fun u hu => by cases hu; exact hnew, List.forall_mem_singleton.2 rfl⟩

/-! ## The invariant -/

/-- What has been read uses tags of the host in such a way. -/
structure Using (P : HostUse → Prop) (nodes : List Node) (blocks : List OpenBlock) : Prop where
  nodes : Node.Uses P nodes
  blocks : ∀ b ∈ blocks, b.Uses P

theorem Using.add (h : Using P nodes blocks) (hn : (TagEffect.add n).Uses P) :
    Using P (n :: nodes) blocks :=
  ⟨uses_cons.2 ⟨⟨hn.1, fun body hb => hn.2 body hb ▸ uses_nil⟩, h.nodes⟩, h.blocks⟩

theorem Using.reads (h : Using P nodes (b :: outer)) {bodies : List (List Node)}
    (hr : b.Reads nodes.reverse bodies) : ∀ body ∈ bodies, Node.Uses P body := by
  intro body hb
  rcases hr body hb with hb | rfl | rfl
  · exact (h.blocks b (.head _)).bodies body hb
  · exact uses_nil
  · exact uses_reverse.2 h.nodes

theorem Using.close (h : Using P nodes (b :: outer)) :
    Using P (b.close nodes.reverse :: b.before) outer := by
  obtain ⟨hb, ho⟩ := List.forall_mem_cons.1 h.blocks
  refine ⟨uses_cons.2 ⟨⟨?_, h.reads (b.reads_close _)⟩, hb.before⟩, ho⟩
  rw [OpenBlock.use_close]
  exact hb.own

/-- Another branch of the innermost block, which is none of the host. -/
theorem Using.branch (h : Using P nodes (b :: outer)) (hk : b'.kind.use? = none)
    (hr : b.Reads nodes.reverse b'.kind.bodies) (hb : b'.before = b.before) :
    Using P [] (b' :: outer) := by
  obtain ⟨hs, ho⟩ := List.forall_mem_cons.1 h.blocks
  refine ⟨uses_nil, List.forall_mem_cons.2 ⟨⟨fun u hu => ?_, h.reads hr, hb ▸ hs.before⟩, ho⟩⟩
  rw [hk] at hu
  cases hu

theorem Using.open (h : Using P nodes blocks) (pos : Position) {kind : BlockKind}
    (hk : (TagEffect.begin kind).Uses P) : Using P [] (⟨pos, kind, nodes⟩ :: blocks) :=
  ⟨uses_nil, List.forall_mem_cons.2
    ⟨⟨hk.1, fun body hb => hk.2 body hb ▸ uses_nil, h.nodes⟩, h.blocks⟩⟩

theorem uses_blockTag {p : Progress (t :: keyword :: s).length} (h : Using P nodes blocks)
    (hp : blockTag g nodes blocks t keyword s = .ok p) : Using P p.nodes p.blocks := by
  unfold blockTag at hp
  split at hp
  · split at hp <;> cases hp
  · rename_i b outer
    split at hp
    · rename_i ht
      have hr := reads_branch b nodes.reverse keyword s
      have hg := gains_branch b nodes.reverse keyword s
      have hopener := opener_branch ht nodes.reverse s
      cases hb : Reading.branch b nodes.reverse keyword s with
      | error e => rw [hb] at hp; cases hp
      | ok b' =>
        rw [hb] at hp hr hg hopener
        cases hp
        have hhost := congrArg Opener.ofHost (hopener : b'.value.opener = _)
        exact h.branch (OpenBlock.use_of_ofHost (hhost.trans (OpenBlock.ofHost_of_takes ht))) hr
          hg.2
    · cases he : endTag g b.name b.pos (t :: keyword :: s) with
      | error e => rw [he] at hp; cases hp
      | ok ending =>
        rw [he] at hp
        cases hp
        exact h.close

theorem uses_anyTag {p : Progress (t :: s).length} (ht : t.kind = .blockBegin)
    (h : Using P nodes blocks) (hp : anyTag g nodes blocks t s = .ok p)
    (new : ∀ u : HostUse, u.Begins g (t :: s) p.rest → P u) : Using P p.nodes p.blocks := by
  cases s with
  | nil => cases hp
  | cons keyword s =>
    rw [anyTag] at hp
    split at hp
    · cases hp
    · split at hp
      · cases hp
      · rename_i hk
        have hk := Decidable.not_not.1 hk
        split at hp
        · exact uses_blockTag h hp
        · rename_i he
          have he : g.endsBody keyword.text = false := by simpa using he
          cases ht' : tag g (inLoop blocks) keyword s with
          | error e => rw [inLoop] at ht'; rw [ht'] at hp; cases hp
          | ok effect =>
            have hu := uses_tag (P := P) ht hk he ht'
            rw [inLoop] at ht'
            rw [ht'] at hp
            change (match effect.value with | .add node => _ | .begin kind => _) = _ at hp
            generalize effect.value = e at hu hp
            cases e with
            | add node =>
              cases hp
              exact h.add (hu new)
            | begin kind =>
              cases hp
              exact h.open _ (hu new)

/-- One item keeps how tags of the host are used, if the tag that it may be is used so as well. -/
theorem uses_item {p : Progress (t :: s).length} (h : Using P nodes blocks)
    (hp : item g nodes blocks t s = .ok p)
    (new : ∀ u : HostUse, u.Begins g (t :: s) p.rest → P u) : Using P p.nodes p.blocks := by
  unfold item at hp
  split at hp
  · cases hp
    exact h.add (uses_leaf rfl rfl)
  · have ho : Gives (fun n => (TagEffect.add n).Uses P) (output t s) := uses_output t s
    cases hn : output t s with
    | error e => rw [hn] at hp; cases hp
    | ok node =>
      rw [hn] at hp ho
      cases hp
      exact h.add ho
  · rename_i ht
    exact uses_anyTag ht h hp new
  · cases hp

end Reading

/-! ## Templates -/

/-- A run of the reader that goes on goes on with no content of a verbatim block. -/
theorem Reads.next_ne_raw {g : Grammar} {r r' : Reader} {taken : List Token}
    (h : Reads g r taken r') (hr : (nextToken r'.rest).kind ≠ .raw) :
    (nextToken r.rest).kind ≠ .raw := by
  cases h with
  | stop => exact hr
  | @item _ _ t _ _ _ _ _ hp _ _ _ =>
    intro ht
    change t.kind = .raw at ht
    unfold Reading.item at hp
    rw [ht] at hp
    cases hp

/-- In a run of the reader every tag of the host is used as it was before, or as some tokens of the
run tell. -/
theorem Reads.uses {P : HostUse → Prop} {g : Grammar} {r r' : Reader} {taken u : List Token}
    (h : Reads g r taken r') (hr : r.rest <:+ u) (hnext : (nextToken r'.rest).kind ≠ .raw)
    (new : ∀ s rest, s <:+ u → (nextToken rest).kind ≠ .raw → ∀ use : HostUse,
      use.Begins g s rest → P use)
    (hs : Reading.Using P r.nodes r.blocks) : Reading.Using P r'.nodes r'.blocks := by
  induction h with
  | stop r => exact hs
  | @item nodes blocks t rest taken later p r hp ht _ hlater ih =>
    have hsuffix : p.rest <:+ t :: rest := ⟨taken, ht.symm⟩
    have hp := Reading.uses_item hs hp (new _ _ hr (hlater.next_ne_raw hnext))
    exact ih (hsuffix.trans hr) hnext hp

/-- **Where tags of the host come from.**  A tag of the host that stands anywhere in a template was
read from a tag of the source, and no content of a verbatim block is behind that. -/
theorem origin_of_parse {tags : List (String × Bool)} {source : String} {nodes : List Node}
    (h : parse tags source = .ok nodes) {n : Node} {u : HostUse} (hn : n.Amid nodes)
    (hu : n.use? = some u) : ∃ tokens s rest, tokenize source = .ok tokens ∧ s <:+ tokens ∧
      (nextToken rest).kind ≠ .raw ∧ u.Begins ⟨tags, some source.toList⟩ s rest := by
  unfold parse at h
  cases ht : tokenize source with
  | error e => rw [ht] at h; cases h
  | ok tokens =>
    rw [ht] at h
    have hends := ends_parseTokens ⟨tags, some source.toList⟩ (ending_tokenize ht)
    change parseTokens _ tokens = .ok nodes at h
    rw [h] at hends
    obtain ⟨taken, mark, hm, hr⟩ := hends
    have hmark : (nextToken [mark]).kind ≠ .raw := by
      change mark.kind ≠ .raw
      rw [hm]
      decide
    have huses := hr.uses (P := fun u => ∃ s rest, s <:+ tokens ∧ (nextToken rest).kind ≠ .raw ∧
      u.Begins ⟨tags, some source.toList⟩ s rest) (List.suffix_refl tokens) hmark
      (fun s rest hs hrest u hu => ⟨s, rest, hs, hrest, hu⟩)
      ⟨uses_nil, fun b hb => absurd hb List.not_mem_nil⟩
    obtain ⟨s, rest, hs, hrest, hb⟩ := uses_reverse.1 huses.nodes n hn u hu
    exact ⟨tokens, s, rest, rfl, hs, hrest, hb⟩

end Liquid
