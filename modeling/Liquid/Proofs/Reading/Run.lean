import Liquid.Proofs.Reading.Lexemes
import Liquid.Proofs.Reading.Replay
import Liquid.Proofs.Reading.Tags
import Liquid.Template

/-!
# Runs of the reader

Reading a template goes item by item: a text, an output or a tag is taken off the front of the
tokens, and changes the nodes of the innermost body and the open blocks.  A run of the reader lists
the tokens that its steps take.

**The invariant.** What is left ends with the mark of the end, and every open block was opened at
one of the tokens.  The second part is what gives the mistake of a block without an end its place.

* `settled_item`: one item keeps the invariant, or fails at one of the tokens.
* `stops_readNodes`: reading is a run that stops at the mark of the end or at an item that cannot be
  read.
* `ends_parseTokens`: reading takes every token before the mark of the end and leaves no block open,
  or it fails at one of the tokens.
* `Template.read_answers`: a source is read as a template, or it has a mistake at one of its places.
-/
namespace Liquid

/-- The nodes of the innermost body, in reverse, the open blocks, the innermost first, and the tokens
that are left. -/
structure Reader where
  nodes : List Node
  blocks : List OpenBlock
  rest : List Token

/-- The reader before some tokens. -/
def Reader.start (s : List Token) : Reader := ⟨[], [], s⟩

/-- A run of the reader, with the tokens that its steps take. -/
inductive Reads (g : Grammar) : Reader → List Token → Reader → Prop where
  | stop (r : Reader) : Reads g r [] r
  | item {nodes : List Node} {blocks : List OpenBlock} {t : Token} {rest taken later : List Token}
      {p : Reading.Progress (t :: rest).length} {r : Reader} :
      Reading.item g nodes blocks t rest = .ok p → t :: rest = taken ++ p.rest → taken ≠ [] →
      Reads g ⟨p.nodes, p.blocks, p.rest⟩ later r →
      Reads g ⟨nodes, blocks, t :: rest⟩ (taken ++ later) r

/-- A run takes the tokens that lie between what was left before it and what is left behind it. -/
theorem Reads.rest_eq {g : Grammar} {r r' : Reader} {taken : List Token} (h : Reads g r taken r') :
    r.rest = taken ++ r'.rest := by
  induction h with
  | stop r => rfl
  | item _ ht _ _ ih =>
    rw [List.append_assoc, ← ih]
    exact ht

/-! ## The blocks that are open -/

namespace OpenBlock

variable {b : OpenBlock}

/-- A block that may have gone on with another branch stands where it stood. -/
theorem pos_getD {o : Option OpenBlock} (h : ∀ b', o = some b' → b'.pos = b.pos) :
    (o.getD b).pos = b.pos := by
  cases o with
  | none => rfl
  | some b' => exact h b' rfl

end OpenBlock

namespace Reading

/-- Every block was opened at one of the tokens. -/
def Opened (u : List Token) (blocks : List OpenBlock) : Prop :=
  ∀ b ∈ blocks, b.pos.OfTokens u

section

variable {u s : List Token} {b : OpenBlock} {blocks : List OpenBlock}

theorem opened_nil : Opened u [] := fun _ h => absurd h List.not_mem_nil

theorem opened_cons (hb : b.pos.OfTokens u) (h : Opened u blocks) :
    Opened u (b :: blocks) := List.forall_mem_cons.2 ⟨hb, h⟩

theorem Opened.head (h : Opened u (b :: blocks)) : b.pos.OfTokens u :=
  h b (.head blocks)

theorem Opened.tail (h : Opened u (b :: blocks)) : Opened u blocks :=
  (List.forall_mem_cons.1 h).2

/-- A branch belongs to the block that was opened. -/
theorem pos_branch {nodes : List Node} {keyword : Token} {p : Parsed OpenBlock s.length}
    (h : branch b nodes keyword s = .ok p) : p.value.pos = b.pos := by
  unfold branch at h
  split at h
  · cases hc : condition s with
    | error e => rw [hc] at h; cases h
    | ok test =>
      rw [hc] at h
      cases h
      exact OpenBlock.pos_getD fun _ h => congrArg Opener.pos (OpenBlock.opener_elsif h)
  · cases hc : whenValues s with
    | error e => rw [hc] at h; cases h
    | ok values =>
      rw [hc] at h
      cases h
      exact OpenBlock.pos_getD fun _ h => congrArg Opener.pos (OpenBlock.opener_when h)
  · cases hc : expectKind .blockEnd s with
    | error e => rw [hc] at h; cases h
    | ok close =>
      rw [hc] at h
      cases h
      exact OpenBlock.pos_getD fun _ h =>
        (congrArg Opener.pos (OpenBlock.opener_else h) : _)

end

/-! ## One item -/

/-- What one item of the tokens `u` leaves, or where it fails. -/
def Settled (u : List Token) {n : Nat} : Except Misplaced (Progress n) → Prop
  | .ok p => p.rest <:+ u ∧ Ending p.rest ∧ Opened u p.blocks
  | .error e => e.position.OfTokens u

section

variable {α : Type} {n k : Nat} {u rest : List Token} {nodes : List Node}
  {blocks : List OpenBlock} {t keyword : Token}

/-- An item that goes on with what a reader has left. -/
theorem settled_bind {r : Reading α n} {f : Parsed α n → Except Misplaced (Progress k)}
    (h : Within u r) (hf : ∀ p, r = .ok p → p.rest <:+ u → Ending p.rest → Settled u (f p)) :
    Settled u (r >>= f) := by
  cases r with
  | ok p => exact hf p rfl h.1 h.2
  | error e => exact h

theorem settled_at (ht : t ∈ u) (m : Mistake) :
    Settled u (throw (m.at t) : Except Misplaced (Progress n)) := ⟨t, ht, rfl⟩

theorem settled_blockTag (g : Grammar) (ht : t.kind ≠ .eof) (hk : keyword.kind = .name)
    (he : Ending (t :: keyword :: rest)) (hs : t :: keyword :: rest <:+ u)
    (ho : Opened u blocks) : Settled u (blockTag g nodes blocks t keyword rest) := by
  have hm : keyword ∈ u := hs.subset (.tail t (.head rest))
  have hr : rest <:+ u := ((List.suffix_cons keyword rest).trans (List.suffix_cons t _)).trans hs
  unfold blockTag
  split
  · split
    · exact settled_at hm _
    · exact settled_at hm _
  · rename_i b outer
    split
    · have he := (he.tail ht).tail (Token.ne_of_kind hk (by decide))
      have htakes := takes_branch b nodes.reverse keyword rest
      refine settled_bind (within_suffix (htakes.within (by decide) he) hr)
        fun p hp hs he => ⟨hs, he, opened_cons ?_ ho.tail⟩
      rw [pos_branch hp]
      exact ho.head
    · refine settled_bind (within_endTag g b.name he hs ho.head) fun p _ hs he => ?_
      exact ⟨hs, he, ho.tail⟩

theorem settled_anyTag (g : Grammar) (ht : t.kind ≠ .eof) (he : Ending (t :: rest))
    (hs : t :: rest <:+ u) (ho : Opened u blocks) :
    Settled u (anyTag g nodes blocks t rest) := by
  have hr := he.tail ht
  cases rest with
  | nil => exact absurd rfl hr.ne_nil
  | cons keyword rest =>
    have hm : keyword ∈ u := hs.subset (.tail t (.head rest))
    rw [anyTag]
    split
    · exact settled_at hm _
    · split
      · exact settled_at hm _
      · rename_i hk
        have hk := Decidable.not_not.1 hk
        split
        · exact settled_blockTag g ht hk he hs ho
        · refine settled_bind (within_tag g _ hk hr ((List.suffix_cons t _).trans hs))
            fun p _ hs he => ?_
          dsimp only
          split
          · exact ⟨hs, he, ho⟩
          · exact ⟨hs, he, opened_cons ⟨keyword, hm, rfl⟩ ho⟩

/-- One item leaves some of the tokens with the mark of the end, and blocks that were opened at
tokens; or it fails at one of the tokens. -/
theorem settled_item (g : Grammar) (ht : t.kind ≠ .eof) (he : Ending (t :: rest))
    (hs : t :: rest <:+ u) (ho : Opened u blocks) : Settled u (item g nodes blocks t rest) := by
  have hr : rest <:+ u := (List.suffix_cons t rest).trans hs
  unfold item
  split
  · exact ⟨hr, he.tail ht, ho⟩
  · have htakes := takes_output t rest
    refine settled_bind (within_suffix (htakes.within (by decide) (he.tail ht)) hr)
      fun p _ hs he => ?_
    exact ⟨hs, he, ho⟩
  · exact settled_anyTag g ht he hs ho
  · exact settled_at (hs.subset (.head rest)) _

end

end Reading

/-! ## All items -/

/-- Where reading ends and with what: at the mark of the end, where no block may be open, or at an
item that cannot be read. -/
inductive Reader.Stops (g : Grammar) : Reader → Except Misplaced (List Node) → Prop where
  | finish {nodes : List Node} {blocks : List OpenBlock} {mark : Token} :
    mark.kind = .eof → Stops g ⟨nodes, blocks, [mark]⟩ (Reading.finish nodes blocks)
  | fail {nodes : List Node} {blocks : List OpenBlock} {t : Token} {rest : List Token}
      {e : Misplaced} :
    t.kind ≠ .eof → Reading.item g nodes blocks t rest = .error e →
    Stops g ⟨nodes, blocks, t :: rest⟩ (.error e)

/-- The tokens that an item takes. -/
theorem exists_taken {u s rest : List Token} (hs : s <:+ u) (hr : rest <:+ u)
    (hl : rest.length < s.length) : ∃ taken, s = taken ++ rest ∧ taken ≠ [] := by
  obtain ⟨taken, rfl⟩ := List.suffix_of_suffix_length_le hr hs (Nat.le_of_lt hl)
  refine ⟨taken, rfl, ?_⟩
  rintro rfl
  exact absurd hl (Nat.lt_irrefl _)

/-- Reading is a run that stops, and the run keeps the invariant. -/
theorem stops_readNodes (g : Grammar) (u : List Token) (nodes : List Node)
    (blocks : List OpenBlock) (s : List Token) (he : Ending s) (hs : s <:+ u)
    (ho : Reading.Opened u blocks) :
    ∃ taken r, Reads g ⟨nodes, blocks, s⟩ taken r ∧ r.Stops g (readNodes g nodes blocks s) ∧
      r.rest <:+ u ∧ Ending r.rest ∧ Reading.Opened u r.blocks := by
  cases s with
  | nil => exact absurd rfl he.ne_nil
  | cons t rest =>
    rw [readNodes]
    split
    · rename_i ht
      obtain rfl := he.eq_nil ht
      exact ⟨[], _, .stop _, .finish ht, hs, he, ho⟩
    · rename_i ht
      have hi : Reading.Settled u (Reading.item g nodes blocks t rest) :=
        Reading.settled_item g ht he hs ho
      cases hp : Reading.item g nodes blocks t rest with
      | error e => exact ⟨[], _, .stop _, .fail ht hp, hs, he, ho⟩
      | ok p =>
        rw [hp] at hi
        obtain ⟨first, hfirst, hne⟩ := exists_taken hs hi.1 p.within
        have hl := p.within
        -- The rest of the run begins behind the item.
        obtain ⟨later, r, hr, hstops, hrest⟩ :=
          stops_readNodes g u p.nodes p.blocks p.rest hi.2.1 hi.1 hi.2.2
        exact ⟨first ++ later, r, .item hp hfirst hne hr, hstops, hrest⟩
termination_by s.length

theorem Reading.ne_eof_of_item {g : Grammar} {nodes : List Node} {blocks : List OpenBlock}
    {t : Token} {rest : List Token} {p : Progress (t :: rest).length}
    (h : item g nodes blocks t rest = .ok p) : t.kind ≠ .eof := by
  intro ht
  unfold item at h
  rw [ht] at h
  cases h

/-- Reading goes on as if it had begun where a run of it has come to. -/
theorem readNodes_of_reads {g : Grammar} {r r' : Reader} {taken : List Token}
    (h : Reads g r taken r') :
    readNodes g r.nodes r.blocks r.rest = readNodes g r'.nodes r'.blocks r'.rest := by
  induction h with
  | stop r => rfl
  | @item nodes blocks t rest taken later p r hp _ _ _ ih =>
    dsimp only
    rw [readNodes, if_neg (Reading.ne_eof_of_item hp), hp]
    exact ih

/-! ## Templates -/

/-- How reading the tokens `u` ends that has come to `r`. -/
def Reader.Ends (g : Grammar) (u : List Token) (r : Reader) : Except Misplaced (List Node) → Prop
  | .ok nodes => ∃ taken mark, mark.kind = .eof ∧ Reads g r taken ⟨nodes.reverse, [], [mark]⟩
  | .error e => e.position.OfTokens u

/-- Reading takes every token before the mark of the end and leaves no block open, or it fails at
one of the tokens. -/
theorem ends_parseTokens (g : Grammar) {tokens : List Token} (h : Ending tokens) :
    Reader.Ends g tokens (.start tokens) (parseTokens g tokens) := by
  obtain ⟨taken, r, hr, hstops, hs, he, ho⟩ :=
    stops_readNodes g tokens [] [] tokens h (List.suffix_refl _) Reading.opened_nil
  unfold parseTokens
  generalize readNodes g [] [] tokens = result at hstops
  cases hstops with
  | @finish nodes blocks mark hm =>
    cases blocks with
    | nil =>
      refine ⟨taken, mark, hm, ?_⟩
      rw [List.reverse_reverse]
      exact hr
    | cons b outer => exact ho.head
  | @fail nodes blocks t rest e ht hp =>
    have hi : Reading.Settled tokens (Reading.item g nodes blocks t rest) :=
      Reading.settled_item g ht he hs ho
    rw [hp] at hi
    exact hi

/-- The line and the column of a place are those of an offset in the source. -/
theorem Position.In.exists_offset {source : String} {p : Position} (h : p.In source.toList) :
    ∃ k ≤ source.length, p = after (source.toList.take k) := by
  obtain ⟨before, hb, rfl⟩ := h
  refine ⟨before.length, ?_, ?_⟩
  · rw [← String.length_toList]
    exact hb.length_le
  · rw [← List.prefix_iff_eq_take.1 hb]

/-- **Every source is answered.** Reading goes through all tokens of the source up to the mark of
its end and gives a template, or it ends with a parse error at the line and the column of an offset
in the source.  No token is a number that cannot be read. -/
theorem Template.read_answers (tags : List (String × Bool)) (source : String)
    (name filename : Option String) :
    (∀ tokens, tokenize source = .ok tokens → ∀ t ∈ tokens, t.kind.Admits t.text.toList) ∧
      ((∃ template taken mark, read tags source name filename = .ok template ∧
          tokenize source = .ok (taken ++ [mark]) ∧ mark.kind = .eof ∧
          Reads ⟨tags, some source.toList⟩ (.start (taken ++ [mark])) taken
            ⟨template.nodes.reverse, [], [mark]⟩) ∨
        ∃ e k, read tags source name filename = .error e ∧
          (Failure.unreadable e).kindName = "ParseError" ∧ k ≤ source.length ∧
          e.line = some ↑(Position.after (source.toList.take k)).line ∧
          e.column = some ↑(Position.after (source.toList.take k)).column) := by
  refine ⟨fun tokens h => readable_tokenize h, ?_⟩
  unfold read
  cases htokens : tokenize source with
  | error e =>
    obtain ⟨k, hk, he⟩ := (position_of_tokenize_error htokens).exists_offset
    exact .inr ⟨_, k, rfl, rfl, hk, he ▸ rfl, he ▸ rfl⟩
  | ok tokens =>
    have hends := ends_parseTokens ⟨tags, some source.toList⟩ (ending_tokenize htokens)
    dsimp only
    cases hnodes : parseTokens ⟨tags, some source.toList⟩ tokens with
    | error e =>
      rw [hnodes] at hends
      obtain ⟨t, ht, he⟩ := hends
      obtain ⟨k, hk, hp⟩ := (position_tokenize htokens t ht).exists_offset
      have he := he.trans hp
      exact .inr ⟨_, k, rfl, rfl, hk, he ▸ rfl, he ▸ rfl⟩
    | ok nodes =>
      rw [hnodes] at hends
      obtain ⟨taken, mark, hm, hr⟩ := hends
      have htaken : tokens = taken ++ [mark] := hr.rest_eq
      subst htaken
      exact .inl ⟨_, taken, mark, rfl, rfl, hm, hr⟩

end Liquid
