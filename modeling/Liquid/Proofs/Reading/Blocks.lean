import Liquid.Proofs.Reading.ReadBack
import Liquid.Proofs.Reading.Replay
import Liquid.Proofs.Reading.Run
import Liquid.Proofs.Reading.Signals

/-!
# Blocks are closed in the order in which they were opened

A reader keeps its open blocks with all that it has read of them; the replay of the tags keeps what
the rules for end tags and branches need.  With every item the two stacks change alike, so a template
that is read has its blocks matched.

**Where reading fails.** The tokens of a source end behind a whole region.  So an item fails at one of
its own tokens, and only open blocks can make reading fail at the end.

* `follows_item`: one item of the reader is followed by the replay of its tags, or it fails at a
  token of its own.
* `follows_reads`: the same for a run.
* `blocks_matched`: a template that is read has its blocks matched; tokens that run out are a
  mistake at the keyword of the innermost open block.
-/
namespace Liquid

open Spelling

/-- The node of a verbatim block, from its place and its content. -/
def Lexer.Verbatim.node : Lexer.Verbatim → Position → String → Node
  | .raw => .raw
  | .comment => .comment

namespace Reading

variable {g : Grammar} {b : OpenBlock} {blocks : List OpenBlock} {nodes : List Node}
  {t keyword close : Token} {words s rest : List Token}

/-- A branch goes on with the innermost open block. -/
theorem opener_branch (h : b.takes keyword.text = true) (nodes : List Node) (s : List Token) :
    Gives (fun b' => b'.opener = b.opener.behind keyword.text) (branch b nodes keyword s) := by
  have stays (hk : keyword.text ≠ "else") : b.opener.behind keyword.text = b.opener := by
    rw [Opener.behind, beq_false_of_ne hk, Bool.or_false]
  unfold branch
  split
  · rename_i hk
    rw [stays (by rw [hk]; decide)]
    exact gives_of_forall fun _ => OpenBlock.opener_getD fun _ => OpenBlock.opener_elsif
  · rename_i hk
    rw [stays (by rw [hk]; decide)]
    exact gives_of_forall fun _ => OpenBlock.opener_getD fun _ => OpenBlock.opener_when
  · rename_i helsif hwhen
    obtain ⟨he, -⟩ | ⟨he, -⟩ | ⟨he, -, hsome⟩ := b.goesOn_of_takes h
    · exact absurd he helsif
    · exact absurd he hwhen
    · refine gives_of_forall fun _ => ?_
      obtain ⟨b', hb'⟩ := Option.isSome_iff_exists.1 (hsome nodes)
      change ((b.else? nodes).getD b).opener = _
      rw [hb', Option.getD_some, OpenBlock.opener_else hb', Opener.behind, he]
      simp only [beq_self_eq_true, Bool.or_true]

/-- A tag adds a node if it opens no block, or it begins the block that it opens. -/
def TagEffect.Opens (g : Grammar) (keyword : Token) : TagEffect → Prop
  | .add _ => g.opens? keyword.text = none
  | .begin kind => ∃ ofHost, g.opens? keyword.text = some ofHost ∧
      ∀ before, (⟨keyword.position, kind, before⟩ : OpenBlock).opener =
        ⟨keyword.text, keyword.position, ofHost, false⟩

section

variable {name : String} (hg : g.tag? keyword.text = none) (hk : keyword.text = name)

include hg hk

theorem opens_add (hn : Grammar.blockKeywords.contains name = false) (node : Node) :
    TagEffect.Opens g keyword (.add node) := by
  change g.opens? keyword.text = none
  rw [Grammar.opens?, hg, hk, hn]
  rfl

theorem opens_begin (hn : Grammar.blockKeywords.contains name = true) {kind : BlockKind}
    (ho : ∀ before, (⟨keyword.position, kind, before⟩ : OpenBlock).opener =
      ⟨name, keyword.position, false, false⟩) : TagEffect.Opens g keyword (.begin kind) := by
  have hopens : g.opens? keyword.text = some false := by
    rw [Grammar.opens?, hg, hk, hn]
    rfl
  exact ⟨false, hopens, hk ▸ ho⟩

theorem opens_signal (hn : Grammar.blockKeywords.contains name = false) (inLoop : Bool)
    (s : List Token) (what : Signal) :
    Gives (TagEffect.Opens g keyword) (do
      if !inLoop then throw ((Mistake.outsideLoop keyword.text).at keyword)
      let close ← expectKind .blockEnd s
      return (close.map fun _ => TagEffect.add (.signal keyword.position what)).optional :
        Reading TagEffect (s.length + 1)) := by
  cases inLoop with
  | false => trivial
  | true => exact gives_of_forall fun _ => opens_add hg hk hn (.signal keyword.position what)

end

theorem opens_tag (inLoop : Bool) (hs : g.skips keyword.text = false) (s : List Token) :
    Gives (TagEffect.Opens g keyword) (tag g inLoop keyword s) := by
  unfold tag
  dsimp only
  split
  · rename_i hasBody hsome
    have hopens : g.opens? keyword.text = if hasBody then some true else none := by
      rw [Grammar.opens?, hsome]
    refine gives_of_forall fun args => ?_
    cases hasBody with
    | false => exact hopens
    | true => exact ⟨true, hopens, fun _ => rfl⟩
  · rename_i hg
    have skipped {name : String} (h : keyword.text = name)
        (hn : ["comment", "raw", "#"].contains name = true) : False := by
      rw [Grammar.skips, hg, h, hn] at hs
      cases hs
    split
    · rename_i hk
      exact gives_of_forall fun _ => opens_begin hg hk rfl fun _ => rfl
    · rename_i hk
      exact gives_of_forall fun _ => opens_begin hg hk rfl fun _ => rfl
    · rename_i hk
      exact gives_of_forall fun _ => opens_begin hg hk rfl fun _ => rfl
    · rename_i hk
      exact gives_of_forall fun _ => gives_of_forall fun _ => opens_begin hg hk rfl fun _ => rfl
    · rename_i hk
      exact opens_signal hg hk rfl inLoop s .leave
    · rename_i hk
      exact opens_signal hg hk rfl inLoop s .next
    · rename_i hk
      exact gives_of_forall fun p => opens_add hg hk rfl p.value
    · rename_i hk
      exact gives_of_forall fun _ => opens_begin hg hk rfl fun _ => rfl
    · rename_i hk
      exact (skipped hk rfl).elim
    · rename_i hk
      exact (skipped hk rfl).elim
    · rename_i hk
      exact (skipped hk rfl).elim
    · rename_i hk
      exact gives_of_forall fun p => opens_add hg hk rfl p.value
    · rename_i hk
      exact gives_of_forall fun p => opens_add hg hk rfl p.value
    · trivial

/-! ## One item -/

/-- An item is followed by the replay of its tags, or it fails at one of its tokens. -/
def Follows (g : Grammar) (blocks : List OpenBlock) (s : List Token) {n : Nat} :
    Except Misplaced (Progress n) → Prop
  | .ok p => Layout p.rest ∧ ∃ words, tagKeywords s = words ++ tagKeywords p.rest ∧
      g.Replays (blocks.map OpenBlock.opener) words (p.blocks.map OpenBlock.opener)
  | .error e => ∃ t ∈ s, t.kind ≠ .eof ∧ e.position = t.position

section

variable {α : Type} {n k : Nat} {u : Token}

theorem follows_at (ht : t ∈ s) (he : t.kind ≠ .eof) (m : Mistake) :
    Follows g blocks s (throw (m.at t) : Except Misplaced (Progress n)) := ⟨t, ht, he, rfl⟩

/-- An item that leaves the tokens `rest`. -/
theorem follows_ok {p : Progress n}
    (h : g.Replays (blocks.map OpenBlock.opener) words (p.blocks.map OpenBlock.opener))
    (hp : p.rest = rest) (hr : Layout rest) (hs : tagKeywords s = words ++ tagKeywords rest) :
    Follows g blocks s (.ok p : Except Misplaced (Progress n)) := by
  subst hp
  exact ⟨hr, words, hs, h⟩

/-- A region of which a reader takes all, or fails in it. -/
theorem follows_region {kind : Token.Kind} {r : Reading α k}
    {f : Parsed α k → Except Misplaced (Progress n)}
    (h : Takes (some kind) (words ++ close :: rest) r) (hk : kind.inner = false)
    (hi : Inner words) (hc : close.kind.inner = false) (he : close.kind ≠ .eof)
    (hf : ∀ p, r = .ok p → close.kind = kind → p.rest = rest →
      Follows g blocks (t :: (words ++ close :: rest)) (f p)) :
    Follows g blocks (t :: (words ++ close :: rest)) (r >>= f) := by
  have hregion := h.region hk rfl hi hc
  cases hr : r with
  | ok p => exact hf p hr (hregion.1 p hr).1 (hregion.1 p hr).2
  | error e =>
    obtain ⟨u, hu, hp⟩ := hregion.2 e hr
    refine ⟨u, .tail t ?_, ?_, hp⟩
    · rw [List.append_cons]
      exact List.mem_append_left rest hu
    · obtain hu | hu := List.mem_append.1 hu
      · exact Token.ne_of_inner (hi u hu) rfl
      · rw [List.mem_singleton.1 hu]
        exact he

/-- A tag of which a reader takes all, or fails in it. -/
theorem follows_tag {r : Reading α k} {f : Parsed α k → Except Misplaced (Progress n)}
    (h : Takes (some .blockEnd) (words ++ close :: rest) r) (hd : Delimits t words close)
    (hf : ∀ p, r = .ok p → p.rest = rest →
      Follows g blocks (t :: (words ++ close :: rest)) (f p)) :
    Follows g blocks (t :: (words ++ close :: rest)) (r >>= f) := by
  have hc : close.kind.inner = false := by
    rw [hd.ends]
    rfl
  have he : close.kind ≠ .eof := Token.ne_of_kind hd.ends (by decide)
  exact follows_region h rfl hd.inner hc he fun p hp _ => hf p hp

end

/-! ## Tags with a content that is read -/

theorem text_of_endTag {name : String} {opened : Position}
    {p : Parsed Unit (t :: keyword :: s).length}
    (h : endTag g name opened (t :: keyword :: s) = .ok p) : keyword.text = "end" ++ name := by
  unfold endTag at h
  dsimp only at h
  split at h
  · cases h
  · split at h
    · cases h
    · split at h
      · split at h
        · cases h
        · cases h
      · rename_i hk
        exact Decidable.not_not.1 hk

section

variable (hd : Delimits t (keyword :: words) close) (hk : keyword.kind = .name)
  (hr : Layout rest)

include hd hk hr

/-- A tag that begins another branch of the innermost open block, or closes that. -/
theorem follows_blockTag (he : g.endsBody keyword.text = true) :
    Follows g blocks (t :: (keyword :: words ++ close :: rest))
      (blockTag g nodes blocks t keyword (words ++ close :: rest)) := by
  have hm : keyword ∈ t :: (keyword :: words ++ close :: rest) := .tail t (.head _)
  have hne : keyword.kind ≠ .eof := Token.ne_of_kind hk (by decide)
  unfold blockTag
  cases blocks with
  | nil =>
    dsimp only
    split
    · exact follows_at hm hne _
    · exact follows_at hm hne _
  | cons b outer =>
    dsimp only
    split
    · rename_i htakes
      have hbranch : Takes (some .blockEnd) (keyword :: (words ++ close :: rest))
          (branch b nodes.reverse keyword (words ++ close :: rest)) :=
        takes_behind (Token.inner_of_kind hk rfl) (takes_branch b nodes.reverse keyword _)
      refine follows_tag hbranch hd fun p hp hrest => ?_
      have hopener := opener_branch htakes nodes.reverse (words ++ close :: rest)
      rw [hp] at hopener
      refine follows_ok ?_ hrest hr (tagKeywords_tag hd)
      rw [List.map_cons, List.map_cons, show p.value.opener = _ from hopener]
      exact Grammar.replays_branch htakes _
    · refine follows_tag (takes_endTag g b.name b.pos hd.begins hk _) hd fun p hp hrest => ?_
      have htext : keyword.text = "end" ++ b.name := text_of_endTag hp
      have hend : g.isEnd keyword.text = true := by
        rw [Grammar.endsBody, Bool.or_eq_true, List.contains_iff_mem, htext] at he
        rw [htext]
        exact he.resolve_left (Grammar.not_mem_branchKeywords b.name)
      exact follows_ok (Grammar.replays_end hend htext _) hrest hr (tagKeywords_tag hd)

/-- A tag whose content is read word by word. -/
theorem follows_anyTag (hs : g.skips keyword.text = false) :
    Follows g blocks (t :: (keyword :: words ++ close :: rest))
      (anyTag g nodes blocks t (keyword :: words ++ close :: rest)) := by
  have hne : keyword.kind ≠ .blockEnd := Token.ne_of_kind hk (by decide)
  rw [List.cons_append, anyTag, if_neg hne, if_neg (not_not_intro hk)]
  split
  · rename_i he
    exact follows_blockTag hd hk hr he
  · rename_i he
    have he : g.endsBody keyword.text = false := Bool.eq_false_iff.2 he
    refine follows_tag (takes_tag _ hk hs _) hd fun p hp hrest => ?_
    have hopens := opens_tag (blocks.any OpenBlock.isLoopBody) hs (words ++ close :: rest)
    rw [hp] at hopens
    change TagEffect.Opens g keyword p.value at hopens
    dsimp only
    cases hv : p.value with
    | add node =>
      rw [hv] at hopens
      exact follows_ok (Grammar.replays_other he hopens _) hrest hr (tagKeywords_tag hd)
    | begin kind =>
      rw [hv] at hopens
      obtain ⟨ofHost, hopens, hopener⟩ := hopens
      refine follows_ok ?_ hrest hr (tagKeywords_tag hd)
      rw [List.map_cons, hopener]
      exact Grammar.replays_opens he hopens _

end

/-! ## Tags without a content that is read -/

theorem anyTag_fails {e : Misplaced} (hk : keyword.kind = .name)
    (he : g.endsBody keyword.text = false)
    (h : tag g (blocks.any OpenBlock.isLoopBody) keyword s = .error e) :
    anyTag g nodes blocks t (keyword :: s) = .error e := by
  have hne : keyword.kind ≠ .blockEnd := Token.ne_of_kind hk (by decide)
  rw [anyTag, if_neg hne, if_neg (not_not_intro hk), he, if_neg Bool.false_ne_true, h]
  rfl

theorem skipToEnd_words (hi : Inner words) (hc : close.kind = .blockEnd) :
    skipToEnd (words ++ close :: rest) = close :: rest := by
  unfold skipToEnd
  induction words with
  | nil => rw [List.nil_append, List.dropWhile_cons_of_neg (by rw [hc]; decide)]
  | cons u words ih =>
    have hi := List.forall_mem_cons.1 hi
    have hu : (u.kind != .blockEnd && u.kind != .eof) = true := by
      rw [Bool.and_eq_true, bne_iff_ne, bne_iff_ne]
      exact ⟨Token.ne_of_inner hi.1 rfl, Token.ne_of_inner hi.1 rfl⟩
    rw [List.cons_append, List.dropWhile_cons, if_pos hu]
    exact ih hi.2

section

variable {v : Lexer.Verbatim} {content t' word close' : Token}
  (hb : Whole v t keyword words close content t' word close')

include hb

/-- The tag of a verbatim block takes all of the block. -/
theorem returns_tag_verbatim (inLoop : Bool) (hg : g.tag? keyword.text = none)
    (rest : List Token) :
    Returns (tag g inLoop keyword (words ++ close :: content :: t' :: word :: close' :: rest))
      (.add (v.node keyword.position content.text)) rest := by
  have whole : Returns
      (verbatim g v.keyword keyword.position (close :: content :: t' :: word :: close' :: rest))
      content.text rest := by
    unfold verbatim
    refine returns_bind (returns_expect hb.opens.ends _) fun _ => ?_
    refine returns_bind (returns_expect hb.holds _) fun _ => ?_
    exact returns_bind
      (returns_endTag hb.closes.begins hb.isNameEnd hb.textEnd hb.closes.ends _)
      fun _ => returns_ok _
  have hi : Inner words := (List.forall_mem_cons.1 hb.opens.inner).2
  rw [hb.text] at hg
  unfold tag
  rw [hb.text]
  cases v with
  | raw =>
    obtain rfl := hb.bare rfl
    dsimp only [Lexer.Verbatim.keyword] at hg ⊢
    rw [hg]
    exact returns_bind whole fun _ => returns_ok _
  | comment =>
    rw [← skipToEnd_words hi hb.opens.ends] at whole
    dsimp only [Lexer.Verbatim.keyword] at hg ⊢
    rw [hg]
    exact returns_bind whole fun _ => returns_ok _

/-- A verbatim block opens a block and closes it. -/
theorem follows_verbatim (hs : g.skips keyword.text = true) (hr : Layout rest) :
    Follows g blocks
      (t :: (keyword :: words ++ close :: content :: t' :: word :: close' :: rest))
      (anyTag g nodes blocks t
        (keyword :: words ++ close :: content :: t' :: word :: close' :: rest)) := by
  have hg : g.tag? keyword.text = none := by
    rw [Grammar.skips, Bool.and_eq_true, Option.isNone_iff_eq_none] at hs
    exact hs.1
  have he : g.endsBody keyword.text = false := by
    cases he : g.endsBody keyword.text with
    | false => rfl
    | true =>
      rw [Grammar.skips_of_endsBody he] at hs
      cases hs
  have hopens : g.opens? keyword.text = some false := by
    rw [Grammar.opens?, hg, hb.text]
    cases v
    · rfl
    · rfl
  have hend : g.isEnd word.text = true := by
    rw [hb.textEnd]
    cases v
    · exact g.isEnd_of_known (by decide)
    · exact g.isEnd_of_known (by decide)
  -- The replay goes from the tag to the end tag, behind which the stack is the same.
  have hreplays : g.Replays (blocks.map OpenBlock.opener) [keyword, word]
      (blocks.map OpenBlock.opener) :=
    (Grammar.replays_opens he hopens _).append
      (Grammar.replays_end hend (hb.textEnd.trans (congrArg ("end" ++ ·) hb.text.symm)) _)
  have hwords :
      tagKeywords (t :: (keyword :: words ++ close :: content :: t' :: word :: close' :: rest)) =
        [keyword, word] ++ tagKeywords rest := by
    have hnot : content.kind ≠ .blockBegin := Token.ne_of_kind hb.holds (by decide)
    rw [tagKeywords_tag hb.opens, tagKeywords_cons_of_ne hnot]
    exact congrArg (keyword :: ·) (tagKeywords_tag hb.closes)
  have hnode := returns_tag_verbatim hb (blocks.any OpenBlock.isLoopBody) hg rest
  obtain ⟨p, hp, -, hblocks, hrest⟩ := anyTag_adds hb.isName he hnode
  rw [List.cons_append, hp]
  exact follows_ok (hblocks ▸ hreplays) hrest hr hwords

end

/-- A note changes no block; as a tag of the host, it cannot be read. -/
theorem follows_note {content : Token} (hd : Delimits t [keyword] close)
    (hk : keyword.kind = .name) (ht : keyword.text = "#") (hc : content.kind = .raw)
    (hr : Layout rest) :
    Follows g blocks (t :: keyword :: content :: close :: rest)
      (anyTag g nodes blocks t (keyword :: content :: close :: rest)) := by
  have he : g.endsBody keyword.text = false := by
    rw [ht]
    rfl
  cases hg : g.tag? keyword.text with
  | none =>
    have hopens : g.opens? keyword.text = none := by
      rw [Grammar.opens?, hg, ht]
      rfl
    have hwords : tagKeywords (t :: keyword :: content :: close :: rest) =
        [keyword] ++ tagKeywords rest := by
      have hnot : content.kind ≠ .blockBegin := Token.ne_of_kind hc (by decide)
      have hnot' : close.kind ≠ .blockBegin := Token.ne_of_kind hd.ends (by decide)
      exact tagKeywords_words hd.begins hd.inner
        ((tagKeywords_cons_of_ne hnot).trans (tagKeywords_cons_of_ne hnot'))
    have hnode : Returns
        (tag g (blocks.any OpenBlock.isLoopBody) keyword (content :: close :: rest))
        (.add (.comment keyword.position content.text)) rest := by
      rw [ht] at hg
      unfold tag
      rw [ht]
      dsimp only
      rw [hg]
      exact returns_bind (returns_note hc hd.ends _) fun _ => returns_ok _
    obtain ⟨p, hp, -, hblocks, hrest⟩ := anyTag_adds hk he hnode
    rw [hp]
    exact follows_ok (hblocks ▸ Grammar.replays_other he hopens _) hrest hr hwords
  | some hasBody =>
    have hs : g.skips keyword.text = false := by
      rw [Grammar.skips, hg]
      rfl
    have htakes : Takes (some .blockEnd) ([keyword] ++ content :: close :: rest)
        (tag g (blocks.any OpenBlock.isLoopBody) keyword (content :: close :: rest)) :=
      takes_tag _ hk hs _
    have hcontent : content.kind.inner = false := by
      rw [hc]
      rfl
    have hne : keyword.kind ≠ .blockEnd := Token.ne_of_kind hk (by decide)
    rw [anyTag, if_neg hne, if_neg (not_not_intro hk), he, if_neg Bool.false_ne_true]
    -- The content stands where the host's tag has to end.
    exact follows_region htakes rfl hd.inner hcontent (Token.ne_of_kind hc (by decide))
      fun _ _ hkind _ => absurd (hc.symm.trans hkind) (by decide)

/-- A word behind the keyword of a raw block is a mistake. -/
theorem verbatim_fails (g : Grammar) (pos : Position) {w : Token} (h : w.kind.inner = true)
    (s : List Token) :
    verbatim g "raw" pos (w :: s) = .error ((Mistake.expected .blockEnd w).at w) := by
  have hne : w.kind ≠ .blockEnd := Token.ne_of_inner h rfl
  unfold verbatim expectKind
  rw [expect, if_neg hne]
  rfl

/-- A tag that comes without a content. -/
theorem follows_words (hd : Delimits t words close) (hp : Worded words) (hr : Layout rest) :
    Follows g blocks (t :: (words ++ close :: rest))
      (anyTag g nodes blocks t (words ++ close :: rest)) := by
  cases words with
  | nil =>
    rw [List.nil_append, anyTag, if_pos hd.ends]
    exact follows_at (.tail t (.head _)) (Token.ne_of_kind hd.ends (by decide)) _
  | cons keyword words =>
    by_cases hk : keyword.kind = .name
    · cases hs : g.skips keyword.text with
      | false => exact follows_anyTag hd hk hr hs
      | true =>
        rw [Grammar.skips, Bool.and_eq_true, Option.isNone_iff_eq_none, List.contains_iff_mem] at hs
        simp only [List.mem_cons, List.not_mem_nil, or_false] at hs
        obtain ⟨hnote, hcomment, hraw⟩ := hp hk
        have ht : keyword.text = "raw" := (hs.2.resolve_left hcomment).resolve_right hnote
        obtain ⟨w, more, rfl⟩ := List.exists_cons_of_ne_nil (hraw ht)
        have hw : w.kind.inner = true := hd.inner w (.tail _ (.head more))
        have he : g.endsBody keyword.text = false := by
          rw [ht]
          rfl
        have htag : tag g (blocks.any OpenBlock.isLoopBody) keyword
            (w :: (more ++ close :: rest)) = .error ((Mistake.expected .blockEnd w).at w) := by
          have hg := hs.1
          rw [ht] at hg
          unfold tag
          rw [ht]
          dsimp only
          rw [hg, verbatim_fails g keyword.position hw]
          rfl
        rw [List.cons_append, List.cons_append, anyTag_fails hk he htag]
        exact follows_at (.tail t (.tail _ (.head _))) (Token.ne_of_inner hw rfl) _
    · have hi : keyword.kind.inner = true := hd.inner keyword (.head words)
      have hne : keyword.kind ≠ .blockEnd := Token.ne_of_inner hi rfl
      rw [List.cons_append, anyTag, if_neg hne, if_pos hk]
      exact follows_at (.tail t (.head _)) (Token.ne_of_inner hi rfl) _

/-! ## Items and runs -/

theorem follows_output (ht : t.kind = .variableBegin) (hi : Inner words)
    (hc : close.kind = .variableEnd) (hr : Layout rest) :
    Follows g blocks (t :: (words ++ close :: rest))
      (item g nodes blocks t (words ++ close :: rest)) := by
  have hwords : tagKeywords (t :: (words ++ close :: rest)) = [] ++ tagKeywords rest := by
    have hnot : t.kind ≠ .blockBegin := Token.ne_of_kind ht (by decide)
    have hnot' : close.kind ≠ .blockBegin := Token.ne_of_kind hc (by decide)
    rw [tagKeywords_cons_of_ne hnot, tagKeywords_inner hi, tagKeywords_cons_of_ne hnot']
    rfl
  have hclose : close.kind.inner = false := by
    rw [hc]
    rfl
  unfold item
  rw [ht]
  refine follows_region (takes_output t _) rfl hi hclose (Token.ne_of_kind hc (by decide))
    fun p _ _ hrest => ?_
  exact follows_ok Grammar.replays_nil hrest hr hwords

/-- One item is followed by the replay of its tags, or it fails at one of its tokens. -/
theorem follows_item (g : Grammar) (nodes : List Node) (blocks : List OpenBlock)
    (h : Layout (t :: rest)) (ht : t.kind ≠ .eof) :
    Follows g blocks (t :: rest) (item g nodes blocks t rest) := by
  have block (hk : t.kind = .blockBegin) :
      item g nodes blocks t rest = anyTag g nodes blocks t rest := by
    unfold item
    rw [hk]
  cases h with
  | last he => exact absurd he ht
  | data hk hr =>
    have hnot : t.kind ≠ .blockBegin := Token.ne_of_kind hk (by decide)
    unfold item
    rw [hk]
    exact follows_ok Grammar.replays_nil rfl hr (tagKeywords_cons_of_ne hnot)
  | content hk hr =>
    unfold item
    rw [hk]
    exact follows_at (.head rest) ht _
  | output hk hi hc hr => exact follows_output hk hi hc hr
  | tag hd hp hr =>
    rw [block hd.begins]
    exact follows_words hd hp hr
  | @verbatim v _ keyword _ _ _ word _ _ rest hb hr =>
    rw [block hb.opens.begins]
    cases hs : g.skips keyword.text with
    | true => exact follows_verbatim hb hs hr
    | false =>
      have hp : Worded [word] := by
        intro _
        rw [hb.textEnd]
        cases v
        · exact ⟨by decide, by decide, by decide⟩
        · exact ⟨by decide, by decide, by decide⟩
      exact follows_anyTag hb.opens hb.isName (.content hb.holds (.tag hb.closes hp hr)) hs
  | note hd hk htext hc hr =>
    rw [block hd.begins]
    exact follows_note hd hk htext hc hr

end Reading

/-- A run is followed by the replay of the tags that it takes. -/
theorem follows_reads {g : Grammar} {r r' : Reader} {taken : List Token} (h : Reads g r taken r')
    (hl : Layout r.rest) :
    Layout r'.rest ∧ ∃ words, tagKeywords r.rest = words ++ tagKeywords r'.rest ∧
      g.Replays (r.blocks.map OpenBlock.opener) words (r'.blocks.map OpenBlock.opener) := by
  induction h with
  | stop r => exact ⟨hl, [], rfl, rfl⟩
  | @item nodes blocks t rest taken later p r hp _ _ _ ih =>
    have hf := Reading.follows_item g nodes blocks hl
      (Reading.ne_eof_of_item hp)
    rw [hp] at hf
    obtain ⟨hrest, first, hfirst, hreplay⟩ := hf
    obtain ⟨hend, more, hmore, hreplays⟩ := ih hrest
    refine ⟨hend, first ++ more, ?_, hreplay.append hreplays⟩
    rw [List.append_assoc, ← hmore]
    exact hfirst

theorem tagKeywords_last (mark : Token) : tagKeywords [mark] = [] := by
  unfold tagKeywords
  split
  · rfl
  · rfl

/-- A run to the mark of the end is followed by the replay of all tags. -/
theorem replays_of_reads {g : Grammar} {tokens taken : List Token} {nodes : List Node}
    {blocks : List OpenBlock} {mark : Token} (hl : Layout tokens)
    (h : Reads g (.start tokens) taken ⟨nodes, blocks, [mark]⟩) :
    g.Replays [] (tagKeywords tokens) (blocks.map OpenBlock.opener) := by
  obtain ⟨-, words, hwords, hreplays⟩ := follows_reads h hl
  change tagKeywords tokens = words ++ tagKeywords [mark] at hwords
  rw [tagKeywords_last, List.append_nil] at hwords
  rw [hwords]
  exact hreplays

/-- **Blocks are matched.** If the tokens of a source are read as a template, the replay of the tags
keeps the rules for end tags and branches and ends with no block open.  If the tokens run out while
blocks are open, the mistake is that the innermost of them is not closed, at its keyword.  There is
no third way to come to the end: any other mistake is at a token of an item, before the mark of the
end. -/
theorem blocks_matched (g : Grammar) {source : String} {tokens : List Token}
    (h : tokenize source = .ok tokens) :
    (∀ nodes, parseTokens g tokens = .ok nodes → g.Replays [] (tagKeywords tokens) []) ∧
      (∀ taken nodes b outer mark,
        Reads g (.start tokens) taken ⟨nodes, b :: outer, [mark]⟩ →
          g.Replays [] (tagKeywords tokens) ((b :: outer).map OpenBlock.opener) ∧
            parseTokens g tokens = .error ⟨.unclosedBlock b.name, b.pos⟩) ∧
      ∀ e, parseTokens g tokens = .error e →
        (∃ top outer, g.Replays [] (tagKeywords tokens) (top :: outer) ∧
          e.position = top.pos ∧ e.mistake = .unclosedBlock top.name ∧
            e.mistake.code = .unclosedBlock) ∨
        ∃ taken nodes blocks t rest,
          Reads g (.start tokens) taken ⟨nodes, blocks, t :: rest⟩ ∧
            Reading.item g nodes blocks t rest = .error e ∧
              ∃ u ∈ t :: rest, u.kind ≠ .eof ∧ e.position = u.position := by
  have hl : Layout tokens := layout_tokenize h
  have he : Ending tokens := ending_tokenize h
  refine ⟨fun nodes hp => ?_, fun taken nodes b outer mark hr => ?_, fun e hp => ?_⟩
  · have hends := ends_parseTokens g he
    rw [hp] at hends
    obtain ⟨taken, mark, hm, hr⟩ := hends
    exact replays_of_reads hl hr
  · refine ⟨replays_of_reads hl hr, ?_⟩
    have htokens : tokens = taken ++ [mark] := hr.rest_eq
    have hm : mark.kind = .eof := (htokens ▸ he).kind_last
    have hparse : parseTokens g tokens = readNodes g nodes (b :: outer) [mark] :=
      readNodes_of_reads hr
    rw [hparse, Reading.readNodes_eof hm]
    rfl
  · obtain ⟨taken, r, hr, hstops, -⟩ :=
      stops_readNodes g tokens [] [] tokens he (List.suffix_refl _) Reading.opened_nil
    change readNodes g [] [] tokens = .error e at hp
    rw [hp] at hstops
    generalize hresult : (Except.error e : Except Misplaced (List Node)) = result at hstops
    cases hstops with
    | @finish nodes blocks mark hm =>
      cases blocks with
      | nil => cases hresult
      | cons b outer =>
        cases hresult
        exact .inl ⟨b.opener, outer.map OpenBlock.opener, replays_of_reads hl hr, rfl, rfl, rfl⟩
    | @fail nodes blocks t rest e ht hitem =>
      cases hresult
      have hf := Reading.follows_item g nodes blocks
        (follows_reads hr hl).1 ht
      rw [hitem] at hf
      exact .inr ⟨taken, nodes, blocks, t, rest, hr, hitem, hf⟩

/-- The source `{% if nil %}`. -/
def unclosedSource : String := String.ofList (written .tag [ofIf, sampleNil])

theorem tokenize_unclosedSource :
    ∃ begin keyword close mark places rest,
      tokenize unclosedSource =
        .ok (begin :: keyword :: (tokens places rest [sampleNil] ++ [close, mark])) ∧
      begin.kind = .blockBegin ∧ keyword = ⟨.name, "if", ⟨3, 1, 3⟩, false⟩ ∧
        close.kind = .blockEnd ∧ mark.kind = .eof := by
  have hflows : Flows false [ofIf, sampleNil] false :=
    flows_cons (by decide) (flows_singleton (by decide))
  have hl := Lexer.lexemes_written hflows
    (fun _ : Region.tag = Region.tag => ⟨ofIf, _, rfl, by decide, by decide⟩)
    (Lexer.lexemes_nil false) false
  rw [List.append_nil] at hl
  have ht := tokenize_of_lexemes hl
  rw [List.map_cons, List.map_append, map_lexed] at ht
  exact ⟨_, _, _, _, _, _, ht, rfl, rfl, rfl, rfl⟩

/-- A conditional with its end tag, and one without. -/
theorem blocks_matched_conditional :
    (∃ tokens nodes, tokenize (conditionalSource [sampleNil]) = .ok tokens ∧
      parseTokens ⟨[], none⟩ tokens = .ok nodes ∧
        Grammar.Replays ⟨[], none⟩ [] (tagKeywords tokens) []) ∧
      ∃ tokens, tokenize unclosedSource = .ok tokens ∧
        parseTokens ⟨[], none⟩ tokens = .error ⟨.unclosedBlock "if", ⟨3, 1, 3⟩⟩ ∧
          Grammar.Replays ⟨[], none⟩ [] (tagKeywords tokens) [⟨"if", ⟨3, 1, 3⟩, false, false⟩] := by
  have hnil : WritesExpression [sampleNil] (.const .start .nil) :=
    .comparison (.primary (.literal rfl rfl))
  constructor
  · obtain ⟨begin, keyword, close, begin', keyword', close', mark, places, rest, ht, hb, hw, hc,
      hb', hw', hc', hm⟩ := tokenize_conditionalSource (flows_expression hnil)
    obtain ⟨e, hp, -⟩ := parseTokens_conditional (g := ⟨[], none⟩) rfl hnil hb hw hc hb' hw' hc' hm
      places rest
    exact ⟨_, _, ht, hp, (blocks_matched ⟨[], none⟩ ht).1 _ hp⟩
  · obtain ⟨begin, keyword, close, mark, places, rest, ht, hb, rfl, hc, hm⟩ := tokenize_unclosedSource
    obtain ⟨e, hval, -⟩ := readsBack_expression places rest hnil
      (stopsExpression_cons (by rw [hc]; decide) : StopsExpression [close, mark])
    have hif : Reading.Returns
        (Reading.tag ⟨[], none⟩ (([] : List OpenBlock).any OpenBlock.isLoopBody)
          ⟨.name, "if", ⟨3, 1, 3⟩, false⟩
          (tokens places rest [sampleNil] ++ [close, mark]))
        (.begin (.conditional false e [] [] .body)) [mark] :=
      Reading.returns_if rfl rfl (Reading.returns_condition hval hc)
    obtain ⟨p, hp, hnodes, hblocks, hrest⟩ := Reading.item_tag hb rfl rfl [] hif
    have htaken : begin :: ⟨.name, "if", ⟨3, 1, 3⟩, false⟩ ::
        (tokens places rest [sampleNil] ++ [close, mark]) =
          (begin :: ⟨.name, "if", ⟨3, 1, 3⟩, false⟩ ::
            (tokens places rest [sampleNil] ++ [close])) ++ p.rest := by
      rw [hrest]
      simp
    have hr := Reads.item hp htaken (List.cons_ne_nil _ _) (.stop _)
    rw [hnodes, hblocks, hrest] at hr
    obtain ⟨hreplays, herror⟩ := (blocks_matched ⟨[], none⟩ ht).2.1 _ _ _ _ _ hr
    exact ⟨_, ht, herror, hreplays⟩

end Liquid
