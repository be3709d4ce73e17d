import Liquid.Node.Parser
import Liquid.Proofs.Reading.Layout

/-!
# The replay of the tags

The tags of a source can be gone through without reading them: each opening tag puts its block on a
stack, and each end tag takes the innermost block off.  What has to be known of a block is its
keyword, the place of that, whether the host has the tag and whether `else` has passed.

**Rules.** An end tag is `end` and the keyword of the innermost open block.  A branch belongs to that
block, which has to be one of the language, of a kind that has such branches, before its `else`.

* `Grammar.Permits`: the rules for end tags and branches.
* `Grammar.Replays`: tags that keep these rules, one behind the other.
* `OpenBlock.opener`: what the replay knows of a block that is being read.
* `replays_branch`, `replays_end`, `replays_opens`, `replays_other`: what one tag does, if the
  reader takes it.
-/
namespace Liquid

/-! ## The rules -/

/-- A block that is open in the replay. -/
structure Opener where
  name : String
  pos : Position
  ofHost : Bool
  pastElse : Bool

namespace Opener

/-- Whether the block is one of the language with one of the keywords, before its `else`. -/
def GoesOn (o : Opener) (names : List String) : Prop :=
  o.ofHost = false ∧ o.pastElse = false ∧ o.name ∈ names

/-- The block behind a tag that begins another branch of it. -/
def behind (word : String) (o : Opener) : Opener :=
  { o with pastElse := o.pastElse || word == "else" }

end Opener

namespace Grammar

/-- The keywords that open the blocks of the language. -/
def blockKeywords : List String := ["if", "unless", "for", "case", "capture", "comment", "raw"]

/-- Whether a tag that neither closes a block nor begins a branch opens one, and whether that is a
block of the host. -/
def opens? (g : Grammar) (name : String) : Option Bool :=
  match g.tag? name with
  | some hasBody => if hasBody then some true else none
  | none => if blockKeywords.contains name then some false else none

/-- The open blocks behind a tag. -/
def behind (g : Grammar) (stack : List Opener) (keyword : Token) : List Opener :=
  if g.isEnd keyword.text then stack.tail
  else if branchKeywords.contains keyword.text then stack.modifyHead (Opener.behind keyword.text)
  else
    match g.opens? keyword.text with
    | some ofHost => ⟨keyword.text, keyword.position, ofHost, false⟩ :: stack
    | none => stack

/-- A tag may stand where these blocks are open: an end tag closes the innermost one, and a branch
belongs to it. -/
structure Permits (g : Grammar) (stack : List Opener) (keyword : Token) : Prop where
  ends : g.isEnd keyword.text = true → ∃ top ∈ stack.head?, keyword.text = "end" ++ top.name
  elsif : keyword.text = "elsif" → ∃ top ∈ stack.head?, top.GoesOn ["if", "unless"]
  when : keyword.text = "when" → ∃ top ∈ stack.head?, top.GoesOn ["case"]
  otherwise : keyword.text = "else" →
    ∃ top ∈ stack.head?, top.GoesOn ["if", "unless", "for", "case"]

/-- Tags lead from some open blocks to others, each of them standing where it may. -/
def Replays (g : Grammar) : List Opener → List Token → List Opener → Prop
  | stack, [], final => stack = final
  | stack, keyword :: more, final =>
    g.Permits stack keyword ∧ g.Replays (g.behind stack keyword) more final

end Grammar

/-- The keywords of all tags: what stands behind each opening delimiter. -/
def tagKeywords : List Token → List Token
  | [] => []
  | t :: rest => (if t.kind = .blockBegin then rest.head?.toList else []) ++ tagKeywords rest

section

variable {t keyword close : Token} {words s rest : List Token}

theorem tagKeywords_cons_of_ne (h : t.kind ≠ .blockBegin) :
    tagKeywords (t :: s) = tagKeywords s := by
  rw [tagKeywords, if_neg h, List.nil_append]

theorem tagKeywords_inner (h : Inner words) : tagKeywords (words ++ s) = tagKeywords s := by
  induction words with
  | nil => rfl
  | cons t words ih =>
    have h := List.forall_mem_cons.1 h
    have ht : t.kind ≠ .blockBegin := Token.ne_of_inner h.1 rfl
    rw [List.cons_append, tagKeywords_cons_of_ne ht, ih h.2]

theorem tagKeywords_words (ht : t.kind = .blockBegin) (hi : Inner (keyword :: words))
    (hs : tagKeywords s = tagKeywords rest) :
    tagKeywords (t :: (keyword :: words ++ s)) = [keyword] ++ tagKeywords rest := by
  rw [tagKeywords, if_pos ht, tagKeywords_inner hi, hs]
  rfl

theorem tagKeywords_tag (h : Delimits t (keyword :: words) close) :
    tagKeywords (t :: (keyword :: words ++ close :: rest)) = [keyword] ++ tagKeywords rest := by
  have hc : close.kind ≠ .blockBegin := Token.ne_of_kind h.ends (by decide)
  exact tagKeywords_words h.begins h.inner (tagKeywords_cons_of_ne hc)

end

namespace Grammar

variable {g : Grammar} {stack middle final : List Opener} {words more : List Token}

theorem replays_nil : g.Replays stack [] stack := rfl

theorem Replays.append (h : g.Replays stack words middle) (hm : g.Replays middle more final) :
    g.Replays stack (words ++ more) final := by
  induction words generalizing stack with
  | nil =>
    obtain rfl : stack = middle := h
    exact hm
  | cons keyword words ih => exact ⟨h.1, ih h.2⟩

/-- A branch keyword closes no block. -/
theorem isEnd_of_branch {name : String} (h : name ∈ branchKeywords) : g.isEnd name = false := by
  simp only [branchKeywords, List.mem_cons, List.not_mem_nil, or_false] at h
  obtain rfl | rfl | rfl := h
  · rfl
  · rfl
  · rfl

end Grammar

/-! ## Open blocks -/

namespace OpenBlock

variable {b b' : OpenBlock} {nodes : List Node}

/-- The block as the replay knows it. -/
def opener (b : OpenBlock) : Opener where
  name := b.name
  pos := b.pos
  ofHost :=
    match b.kind with
    | .host _ _ _ => true
    | _ => false
  pastElse :=
    match b.kind with
    | .conditional _ _ _ _ .otherwise => true
    | .loop _ (some _) => true
    | .choice _ _ .otherwise => true
    | _ => false

theorem opener_elsif {test : Expr} (h : b.elsif? nodes test = some b') : b'.opener = b.opener := by
  obtain ⟨pos, kind, before⟩ := b
  unfold elsif? at h
  split at h
  · subst_vars
    split at h
    · cases h
      rfl
    · cases h
      rfl
    · cases h
  · cases h

theorem opener_when {pos : Position} {values : List Expr}
    (h : b.when? nodes pos values = some b') : b'.opener = b.opener := by
  obtain ⟨pos', kind, before⟩ := b
  unfold when? at h
  split at h
  · subst_vars
    split at h
    · cases h
      rfl
    · cases h
      rfl
    · cases h
  · cases h

theorem opener_else (h : b.else? nodes = some b') :
    b'.opener = { b.opener with pastElse := true } := by
  obtain ⟨pos, kind, before⟩ := b
  unfold else? at h
  split at h
  · subst_vars
    split at h
    · cases h
      rfl
    · cases h
      rfl
    · cases h
  · subst_vars
    cases h
    rfl
  · subst_vars
    split at h
    · cases h
      rfl
    · cases h
      rfl
    · cases h
  · cases h

/-- A block that may have gone on with another branch is the same in the replay. -/
theorem opener_getD {o : Option OpenBlock} (h : ∀ b', o = some b' → b'.opener = b.opener) :
    (o.getD b).opener = b.opener := by
  cases o with
  | none => rfl
  | some b' => exact h b' rfl

/-- The branches that a block takes are those that the replay allows it. -/
theorem goesOn_of_takes {word : String} (h : b.takes word = true) :
    (word = "elsif" ∧ b.opener.GoesOn ["if", "unless"]) ∨
      (word = "when" ∧ b.opener.GoesOn ["case"]) ∨
        word = "else" ∧ b.opener.GoesOn ["if", "unless", "for", "case"] ∧
          ∀ nodes, (b.else? nodes).isSome = true := by
  obtain ⟨pos, kind, before⟩ := b
  have named (negated : Bool) : (if negated then "unless" else "if") ∈ ["if", "unless"] := by
    cases negated
    · exact .head _
    · exact .tail _ (.head _)
  have named' (negated : Bool) :
      (if negated then "unless" else "if") ∈ ["if", "unless", "for", "case"] :=
    List.mem_append_left ["for", "case"] (named negated)
  have either {first : String} (hw : (word == first || word == "else") = true) :
      word = first ∨ word = "else" := by
    rwa [Bool.or_eq_true, beq_iff_eq, beq_iff_eq] at hw
  cases kind with
  | conditional negated test body branches part =>
    cases part with
    | body =>
      obtain rfl | rfl := either h
      · exact .inl ⟨rfl, rfl, rfl, named negated⟩
      · exact .inr (.inr ⟨rfl, ⟨rfl, rfl, named' negated⟩, fun _ => rfl⟩)
    | branch test =>
      obtain rfl | rfl := either h
      · exact .inl ⟨rfl, rfl, rfl, named negated⟩
      · exact .inr (.inr ⟨rfl, ⟨rfl, rfl, named' negated⟩, fun _ => rfl⟩)
    | otherwise => cases h
  | loop head body =>
    cases body with
    | none =>
      obtain rfl : word = "else" := eq_of_beq h
      exact .inr (.inr ⟨rfl, ⟨rfl, rfl, .tail _ (.tail _ (.head _))⟩, fun _ => rfl⟩)
    | some body => cases h
  | choice subject whens part =>
    cases part with
    | preamble =>
      obtain rfl | rfl := either h
      · exact .inr (.inl ⟨rfl, rfl, rfl, .head _⟩)
      · exact .inr (.inr ⟨rfl, ⟨rfl, rfl, .tail _ (.tail _ (.tail _ (.head _)))⟩, fun _ => rfl⟩)
    | branch pos values =>
      obtain rfl | rfl := either h
      · exact .inr (.inl ⟨rfl, rfl, rfl, .head _⟩)
      · exact .inr (.inr ⟨rfl, ⟨rfl, rfl, .tail _ (.tail _ (.tail _ (.head _)))⟩, fun _ => rfl⟩)
    | otherwise => cases h
  | capture name => cases h
  | host name arguments markup => cases h

end OpenBlock

/-! ## One tag -/

namespace Grammar

variable {g : Grammar} {b : OpenBlock} {keyword : Token}

/-- A branch that the innermost open block takes belongs to it. -/
theorem permits_of_takes (h : b.takes keyword.text = true) (outer : List Opener) :
    g.Permits (b.opener :: outer) keyword := by
  have hgo := b.goesOn_of_takes h
  constructor
  · intro hend
    obtain ⟨he, -⟩ | ⟨he, -⟩ | ⟨he, -, -⟩ := hgo
    · rw [he, isEnd_of_branch (by decide)] at hend
      cases hend
    · rw [he, isEnd_of_branch (by decide)] at hend
      cases hend
    · rw [he, isEnd_of_branch (by decide)] at hend
      cases hend
  · intro hk
    obtain ⟨-, hg⟩ | ⟨he, -⟩ | ⟨he, -, -⟩ := hgo
    · exact ⟨b.opener, rfl, hg⟩
    · exact absurd (he.symm.trans hk) (by decide)
    · exact absurd (he.symm.trans hk) (by decide)
  · intro hk
    obtain ⟨he, -⟩ | ⟨-, hg⟩ | ⟨he, -, -⟩ := hgo
    · exact absurd (he.symm.trans hk) (by decide)
    · exact ⟨b.opener, rfl, hg⟩
    · exact absurd (he.symm.trans hk) (by decide)
  · intro hk
    obtain ⟨he, -⟩ | ⟨he, -⟩ | ⟨-, hg, -⟩ := hgo
    · exact absurd (he.symm.trans hk) (by decide)
    · exact absurd (he.symm.trans hk) (by decide)
    · exact ⟨b.opener, rfl, hg⟩

/-- A branch that the innermost open block takes goes on with that block. -/
theorem replays_branch (h : b.takes keyword.text = true) (outer : List Opener) :
    g.Replays (b.opener :: outer) [keyword] (b.opener.behind keyword.text :: outer) := by
  have hb : keyword.text ∈ branchKeywords := by
    obtain ⟨he, -⟩ | ⟨he, -⟩ | ⟨he, -, -⟩ := b.goesOn_of_takes h
    · rw [he]
      exact .head _
    · rw [he]
      exact .tail _ (.tail _ (.head _))
    · rw [he]
      exact .tail _ (.head _)
  refine ⟨permits_of_takes h outer, ?_⟩
  rw [behind, isEnd_of_branch hb, if_neg Bool.false_ne_true, if_pos (List.contains_iff_mem.2 hb)]
  rfl

/-- The end tag of a block begins no branch. -/
theorem not_mem_branchKeywords (name : String) : "end" ++ name ∉ branchKeywords := by
  have hprefix : "end".toList <+: ("end" ++ name).toList := by
    rw [String.toList_append]
    exact List.prefix_append _ _
  intro h
  generalize "end" ++ name = word at h hprefix
  simp only [branchKeywords, List.mem_cons, List.not_mem_nil, or_false] at h
  obtain rfl | rfl | rfl := h
  · exact absurd hprefix (by decide)
  · exact absurd hprefix (by decide)
  · exact absurd hprefix (by decide)

/-- The end tag of the innermost open block closes it. -/
theorem replays_end (he : g.isEnd keyword.text = true) {top : Opener}
    (h : keyword.text = "end" ++ top.name) (outer : List Opener) :
    g.Replays (top :: outer) [keyword] outer := by
  have hb {word : String} (hw : word ∈ branchKeywords) : keyword.text ≠ word := by
    rintro rfl
    exact not_mem_branchKeywords top.name (h ▸ hw)
  constructor
  · constructor
    · exact fun _ => ⟨top, rfl, h⟩
    · exact fun hk => absurd hk (hb (by decide))
    · exact fun hk => absurd hk (hb (by decide))
    · exact fun hk => absurd hk (hb (by decide))
  · rw [behind, if_pos he]
    rfl

/-- A tag that belongs to no block may stand anywhere. -/
theorem replays_of_not_endsBody (h : g.endsBody keyword.text = false) (stack : List Opener) :
    g.Replays stack [keyword]
      (match g.opens? keyword.text with
        | some ofHost => ⟨keyword.text, keyword.position, ofHost, false⟩ :: stack
        | none => stack) := by
  rw [endsBody, Bool.or_eq_false_iff] at h
  have hb {word : String} (hw : branchKeywords.contains word = true) : keyword.text ≠ word := by
    rintro he
    rw [he, hw] at h
    cases h.1
  constructor
  · constructor
    · intro he
      rw [h.2] at he
      cases he
    · exact fun he => absurd he (hb rfl)
    · exact fun he => absurd he (hb rfl)
    · exact fun he => absurd he (hb rfl)
  · rw [behind, h.2, h.1, if_neg Bool.false_ne_true, if_neg Bool.false_ne_true]
    rfl

theorem replays_opens (h : g.endsBody keyword.text = false) {ofHost : Bool}
    (ho : g.opens? keyword.text = some ofHost) (stack : List Opener) :
    g.Replays stack [keyword] (⟨keyword.text, keyword.position, ofHost, false⟩ :: stack) := by
  have hr := replays_of_not_endsBody h stack
  rw [ho] at hr
  exact hr

theorem replays_other (h : g.endsBody keyword.text = false)
    (ho : g.opens? keyword.text = none) (stack : List Opener) :
    g.Replays stack [keyword] stack := by
  have hr := replays_of_not_endsBody h stack
  rw [ho] at hr
  exact hr

end Grammar

end Liquid
