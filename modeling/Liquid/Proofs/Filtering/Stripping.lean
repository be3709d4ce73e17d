import Liquid.Text.Html

/-!
# Texts without tags

Tags are taken out of a text from left to right: a whole script, a whole style, a comment, or
whatever stands between two angle brackets.  What is left on either side of a tag comes together, so
that it is not plain that no new tag arises there.

**What makes a tag.**  Each of the four forms begins with a left angle bracket and ends with a right
one, and the last form takes any such stretch.  So a tag begins exactly where a left angle bracket
has a right one somewhere behind it, and a left angle bracket that stays has none, neither in the
text nor in what is left of it.

* `dropTag?_eq_none_iff`: where no tag begins.
* `strips_stripTags`: what is left out, and what stays.
* `stripped_texts_settled`: no tag is left, and nothing else is lost before the first of them.
-/
namespace Liquid.Text.Html

/-! ## Where a tag begins -/

theorem dropWord?_eq_some {p s r : List Char} (h : dropWord? p s = some r) :
    ∃ w, s = w ++ r ∧ w.map plainLetter = p := by
  induction p generalizing s with
  | nil =>
    cases h
    exact ⟨[], rfl, rfl⟩
  | cons a p ih =>
    cases s with
    | nil => cases h
    | cons c s =>
      rw [dropWord?] at h
      split at h
      · rename_i ha
        obtain ⟨w, rfl, hw⟩ := ih h
        exact ⟨c :: w, rfl, by rw [List.map_cons, hw, ha]⟩
      · cases h

theorem dropThroughWord?_eq_some {p s r : List Char} (h : dropThroughWord? p s = some r) :
    ∃ before w, s = before ++ w ++ r ∧ w.map plainLetter = p := by
  induction s with
  | nil =>
    obtain ⟨w, hs, hw⟩ := dropWord?_eq_some h
    exact ⟨[], w, hs, hw⟩
  | cons c s ih =>
    rw [dropThroughWord?] at h
    split at h
    · rename_i hd
      obtain ⟨w, hs, hw⟩ := dropWord?_eq_some hd
      cases h
      exact ⟨[], w, hs, hw⟩
    · obtain ⟨before, w, rfl, hw⟩ := ih h
      exact ⟨c :: before, w, rfl, hw⟩

/-- No other character counts as an angle bracket when case does not count. -/
theorem eq_bracket_of_plainLetter {b c : Char} (hb : b = '<' ∨ b = '>') (h : plainLetter c = b) :
    c = b := by
  have hascii : ∀ n < 128, plainLetter (Char.ofNat n) = '<' ∨ plainLetter (Char.ofNat n) = '>' →
      Char.ofNat n = plainLetter (Char.ofNat n) := by decide
  by_cases hc : c.toNat < 128
  · have hsame := hascii c.toNat hc
    rw [Char.ofNat_toNat] at hsame
    rw [← h] at hb ⊢
    exact hsame hb
  · -- The letters beyond ASCII that count as letters of ASCII are no brackets.
    rw [plainLetter, if_neg hc] at h
    have hletters : 's' ≠ b ∧ 'i' ≠ b ∧ 'k' ≠ b := by
      obtain rfl | rfl := hb <;> decide
    split at h
    · exact absurd h hletters.1
    · split at h
      · exact absurd h hletters.2.1
      · split at h
        · exact absurd h hletters.2.2
        · exact h

theorem dropElement?_eq_some {opening closing : String} {s r : List Char} {o c : List Char}
    (ho : opening.toList = '<' :: o) (hc : closing.toList = c ++ ['>'])
    (h : dropElement? opening closing s = some r) : ∃ inner, s = '<' :: inner ++ '>' :: r := by
  rw [dropElement?, ho, hc, Option.bind_eq_some_iff] at h
  obtain ⟨m, hopen, hclose⟩ := h
  obtain ⟨w, rfl, hw⟩ := dropWord?_eq_some hopen
  obtain ⟨before, w', rfl, hw'⟩ := dropThroughWord?_eq_some hclose
  obtain ⟨a, w, rfl, ha, -⟩ := List.map_eq_cons_iff.1 hw
  obtain ⟨v, z, rfl, -, hz⟩ := List.map_eq_append_iff.1 hw'
  obtain ⟨y, rfl, hy⟩ := List.map_eq_singleton_iff.1 hz
  obtain rfl := eq_bracket_of_plainLetter (.inl rfl) ha
  obtain rfl := eq_bracket_of_plainLetter (.inr rfl) hy
  exact ⟨w ++ before ++ v, by simp⟩

/-- Whichever form a tag has, it stands between angle brackets. -/
theorem dropTag?_eq_some {s r : List Char} (h : dropTag? s = some r) :
    ∃ inner, s = '<' :: inner ++ '>' :: r := by
  simp only [dropTag?, Option.or_eq_some_iff] at h
  obtain h | ⟨-, h | ⟨-, h | ⟨-, h⟩⟩⟩ := h
  · exact dropElement?_eq_some (o := "script".toList) (c := "</script".toList) rfl rfl h
  · exact dropElement?_eq_some (o := "style".toList) (c := "</style".toList) rfl rfl h
  · exact dropElement?_eq_some (o := "!--".toList) (c := "--".toList) rfl rfl h
  · exact dropElement?_eq_some (o := []) (c := []) rfl rfl h

/-- Up to the first right angle bracket. -/
theorem isSome_dropThroughWord? {s : List Char} (h : '>' ∈ s) :
    (dropThroughWord? ['>'] s).isSome = true := by
  induction s with
  | nil => cases h
  | cons c s ih =>
    rw [dropThroughWord?]
    split
    · rfl
    · rename_i hnone
      refine ih ((List.mem_cons.1 h).resolve_left ?_)
      rintro rfl
      cases hnone

/-- No tag begins at a text exactly if it begins with no left angle bracket, or has no right one
behind it. -/
theorem dropTag?_eq_none_iff {s : List Char} :
    dropTag? s = none ↔ ∀ rest, s = '<' :: rest → '>' ∉ rest := by
  constructor
  · rintro h rest rfl hm
    simp only [dropTag?, Option.or_eq_none_iff] at h
    have hsome := isSome_dropThroughWord? hm
    rw [show dropThroughWord? ['>'] rest = dropElement? "<" ">" ('<' :: rest) from rfl,
      h.2.2.2] at hsome
    cases hsome
  · intro h
    cases hd : dropTag? s with
    | none => rfl
    | some r =>
      obtain ⟨inner, rfl⟩ := dropTag?_eq_some hd
      exact absurd (by simp) (h _ rfl)

/-! ## What is left -/

/-- The second text is what is left of the first without its tags: each stretch that is left out
stands between angle brackets, and a left angle bracket that stays has no right one behind it. -/
inductive Strips : List Char → List Char → Prop
  | nil : Strips [] []
  | tag {inner rest t : List Char} (h : Strips rest t) : Strips ('<' :: inner ++ '>' :: rest) t
  | keep {c : Char} {rest t : List Char} (hc : c = '<' → '>' ∉ rest) (h : Strips rest t) :
      Strips (c :: rest) (c :: t)

theorem stripTags_of_dropTag {s r : List Char} (h : dropTag? s = some r) :
    stripTags s = stripTags r := by
  cases s with
  | nil => cases h
  | cons c rest =>
    rw [stripTags]
    split
    · rename_i after ha
      rw [h] at ha
      cases ha
      rfl
    · rename_i hnone
      rw [h] at hnone
      cases hnone

theorem stripTags_cons {c : Char} {rest : List Char} (h : dropTag? (c :: rest) = none) :
    stripTags (c :: rest) = c :: stripTags rest := by
  rw [stripTags]
  split
  · rename_i after ha
    rw [h] at ha
    cases ha
  · rfl

theorem strips_stripTags (s : List Char) : Strips s (stripTags s) := by
  fun_induction stripTags s with
  | case1 => exact .nil
  | case2 c rest after h ih =>
    obtain ⟨inner, hs⟩ := dropTag?_eq_some h
    exact hs ▸ .tag ih
  | case3 c rest h ih =>
    exact .keep (fun hc => dropTag?_eq_none_iff.1 h rest (by rw [hc])) ih

namespace Strips

variable {s t : List Char}

theorem sublist (h : Strips s t) : t.Sublist s := by
  induction h with
  | nil => exact .slnil
  | tag _ ih => exact (ih.cons _).trans (List.sublist_append_right _ _)
  | keep _ _ ih => exact ih.cons_cons _

/-- Nothing is left out before the first left angle bracket. -/
theorem takeWhile_prefix (h : Strips s t) : s.takeWhile (· ≠ '<') <+: t := by
  induction h with
  | nil => exact List.prefix_rfl
  | tag _ _ => exact List.nil_prefix
  | @keep c _ _ _ _ ih =>
    by_cases hc : c = '<'
    · rw [List.takeWhile_cons_of_neg (by simp [hc])]
      exact List.nil_prefix
    · rw [List.takeWhile_cons_of_pos (by simp [hc])]
      exact List.cons_prefix_cons.2 ⟨rfl, ih⟩

/-- The right angle brackets behind a left one that stays are among those of the text, which has
none there. -/
theorem notMem_behind (h : Strips s t) {before after : List Char}
    (ht : t = before ++ '<' :: after) : '>' ∉ after := by
  induction h generalizing before with
  | nil => simp at ht
  | tag _ ih => exact ih ht
  | keep hc h ih =>
    cases before with
    | nil =>
      obtain ⟨rfl, rfl⟩ := List.cons.inj ht
      exact fun hm => hc rfl (h.sublist.subset hm)
    | cons d before => exact ih (List.cons.inj ht).2

/-- A text without tags is all that is left of it. -/
theorem eq_of_free (h : Strips s t)
    (hs : ∀ before after, s = before ++ '<' :: after → '>' ∉ after) : t = s := by
  induction h with
  | nil => rfl
  | tag _ _ => exact absurd (by simp) (hs [] _ rfl)
  | keep _ _ ih => rw [ih fun before after he => hs (_ :: before) after (by rw [he]; rfl)]

end Strips

/-- Whatever the text, no tag is left in it when its tags are taken out: no left angle bracket has a
right one anywhere behind it, so that there is nothing to take out a second time.  What is left is
part of the text, in its order, and all of the text before the first left angle bracket is left. -/
theorem stripped_texts_settled (s : List Char) :
    (∀ before after, stripTags s = before ++ '<' :: after → '>' ∉ after) ∧
      (∀ before after, stripTags s = before ++ after → dropTag? after = none) ∧
      stripTags (stripTags s) = stripTags s ∧
      (stripTags s).Sublist s ∧ s.takeWhile (· ≠ '<') <+: stripTags s := by
  have hs := strips_stripTags s
  refine ⟨fun _ _ => hs.notMem_behind, fun before after h => ?_, ?_, hs.sublist,
    hs.takeWhile_prefix⟩
  · refine dropTag?_eq_none_iff.2 fun rest hrest => ?_
    exact hs.notMem_behind (by rw [h, hrest])
  · exact (strips_stripTags _).eq_of_free fun _ _ => hs.notMem_behind

theorem stripped_texts_settled_open :
    stripTags ['<', '<', 'i', '>', 'a', '<', 'b'] = ['a'] ++ '<' :: ['b'] ∧ '>' ∉ ['b'] := by
  have h : stripTags ['<', '<', 'i', '>', 'a', '<', 'b'] = ['a', '<', 'b'] := by
    rw [stripTags_of_dropTag (show dropTag? _ = some ['a', '<', 'b'] by decide),
      stripTags_cons (by decide), stripTags_cons (by decide), stripTags_cons (by decide), stripTags]
  exact ⟨h, (stripped_texts_settled _).1 ['a'] _ h⟩

end Liquid.Text.Html
