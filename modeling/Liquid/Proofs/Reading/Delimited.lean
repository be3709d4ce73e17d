import Liquid.Proofs.Reading.Spelled

/-!
# What stands between delimiters

A region is its opening delimiter, what stands inside and its closing delimiter, each delimiter
perhaps with a mark to trim.  A search for a delimiter finds the first one: what it passes over
holds no other.

* `Delimited`: a region as it is written.
* `Lexer.opening?_eq_some`, `Lexer.closing?_eq_some`: a delimiter.
* `Lexer.findOpening?_eq_some`, `Lexer.findClosing?_eq_some`: the first delimiter.
* `Lexer.inside_eq_ok`: what a region with words is.
-/
namespace Liquid

open Liquid.Text

/-! ## Blanks -/

/-- Blanks and nothing else. -/
def Blank (s : List Char) : Prop := ∀ c ∈ s, isBlank c = true

section

variable {s t : List Char}

theorem blank_nil : Blank [] := List.forall_mem_nil _

theorem Blank.append (hs : Blank s) (ht : Blank t) : Blank (s ++ t) :=
  List.forall_mem_append.2 ⟨hs, ht⟩

theorem blank_takeWhile (s : List Char) : Blank (s.takeWhile isBlank) :=
  List.all_eq_true.1 List.all_takeWhile

theorem head?_trimStart (s : List Char) : ∀ c ∈ (trimStart s).head?, isBlank c = false := by
  intro c hc
  have h := List.head?_dropWhile_not isBlank s
  rw [trimStart] at hc
  rw [Option.mem_def.1 hc] at h
  simpa using h

/-- Trimming stops at the first character that is no blank. -/
theorem trimStart_append (hs : Blank s) (ht : ∀ c ∈ t.head?, isBlank c = false) :
    trimStart (s ++ t) = t := by
  rw [trimStart, List.dropWhile_append_of_pos hs]
  cases t with
  | nil => rfl
  | cons c t => simp [ht c rfl]

theorem Blank.getLast?_ne (h : Blank s) : s.getLast? ≠ some '-' := by
  refine getLast?_ne_of_forall (p := fun c => isBlank c = true) (fun c hc he => ?_) h
  subst he
  exact absurd hc (by decide)

end

/-! ## Delimiters -/

/-- The mark to trim beside a delimiter, or none. -/
def markOf (trim : Bool) : List Char := if trim then ['-'] else []

/-- Something that begins nowhere in a text that `after` follows. -/
def Nowhere (p : List Char → Prop) (text after : List Char) : Prop :=
  ∀ b, b ≠ [] → b <:+ text → ¬ p (b ++ after)

section

variable {p : List Char → Prop} {c : Char} {text after : List Char}

theorem nowhere_nil : Nowhere p [] after :=
  fun _ hb hs => absurd (List.suffix_nil.1 hs) hb

theorem nowhere_cons_iff : Nowhere p (c :: text) after ↔
    ¬ p (c :: (text ++ after)) ∧ Nowhere p text after := by
  constructor
  · intro h
    exact ⟨h (c :: text) (by simp) (List.suffix_refl _),
      fun b hb hs => h b hb (hs.trans (List.suffix_cons c text))⟩
  · intro h b hb hs
    rcases List.suffix_cons_iff.1 hs with rfl | hs
    · exact h.1
    · exact h.2 b hb hs

end

/-- A region as it is written: its delimiters, whether there is a mark beside them, and what stands
between. -/
structure Delimited where
  region : Region
  left : Bool
  inside : List Char
  right : Bool

namespace Delimited

/-- The closing delimiter with its mark. -/
def closing (d : Delimited) : List Char := markOf d.right ++ d.region.closer

/-- The whole region. -/
def source (d : Delimited) : List Char :=
  d.region.opener ++ (markOf d.left ++ (d.inside ++ d.closing))

/-- A hyphen beside a delimiter is a mark. -/
structure Marked (d : Delimited) : Prop where
  left : d.left = false → (d.inside ++ d.closing).head? ≠ some '-'
  right : d.right = false → d.inside.getLast? ≠ some '-'

end Delimited

namespace Lexer

section

variable {region : Region} {s t : List Char} {m : Mark}

theorem closing?_eq_some :
    closing? region s = some m ↔ s = markOf m.trim ++ (region.closer ++ m.rest) := by
  obtain ⟨trim, rest⟩ := m
  have hc : region.closer.head? ≠ some '-' := by cases region <;> simp [Region.closer]
  unfold closing?
  split
  · rename_i u
    rw [Option.map_eq_some_iff]
    constructor
    · intro h
      obtain ⟨r, hr, he⟩ := h
      cases he
      simp [markOf, dropPrefix?_eq_some.1 hr]
    · intro h
      cases trim with
      | true => exact ⟨rest, dropPrefix?_eq_some.2 (List.cons.inj h).2, rfl⟩
      | false =>
        have hh := congrArg List.head? h
        cases region <;> simp [markOf, Region.closer] at hh
  · rename_i hn
    rw [Option.map_eq_some_iff]
    constructor
    · intro h
      obtain ⟨r, hr, he⟩ := h
      cases he
      simpa [markOf] using dropPrefix?_eq_some.1 hr
    · intro h
      cases trim with
      | true => exact absurd h (hn _)
      | false => exact ⟨rest, dropPrefix?_eq_some.2 h, rfl⟩

theorem head?_ne_of_forall {c : Char} (h : ∀ t, s = c :: t → False) : s.head? ≠ some c := by
  intro hh
  obtain ⟨t, ht⟩ := List.head?_eq_some_iff.1 hh
  exact h t ht

theorem head?_append_ne {c : Char} (h : (s ++ t).head? ≠ some c) : s.head? ≠ some c := by
  intro hs
  obtain ⟨u, rfl⟩ := List.head?_eq_some_iff.1 hs
  exact h rfl

theorem opening?_eq_some : opening? s = some (region, m) ↔
    s = region.opener ++ (markOf m.trim ++ m.rest) ∧
      (m.trim = false → m.rest.head? ≠ some '-') := by
  obtain ⟨trim, rest⟩ := m
  constructor
  · intro h
    simp only [opening?, Option.or_eq_some_iff, Option.map_eq_some_iff] at h
    obtain ⟨rest, hr, h⟩ | ⟨-, rest, hr, h⟩ := h
    all_goals
      rw [dropPrefix?_eq_some.1 hr]
      split at h
      · cases h
        exact ⟨rfl, by simp⟩
      · rename_i hn
        cases h
        exact ⟨rfl, fun _ => head?_ne_of_forall hn⟩
  · intro h
    obtain ⟨rfl, hn⟩ := h
    cases trim with
    | true => cases region <;> simp [opening?, Region.opener, markOf, dropPrefix?]
    | false =>
      have hn := hn rfl
      cases rest with
      | nil => cases region <;> simp [opening?, Region.opener, markOf, dropPrefix?]
      | cons c rest =>
        have hc : c ≠ '-' := by simpa using hn
        cases region <;> simp [opening?, Region.opener, markOf, dropPrefix?, hc]

/-- An opening delimiter begins here. -/
def BeginsRegion (s : List Char) : Prop := ∃ region : Region, region.opener <+: s

theorem opening?_eq_none : opening? s = none ↔ ¬ BeginsRegion s := by
  constructor
  · intro h hb
    obtain ⟨region, rest, rfl⟩ := hb
    simp only [opening?, Option.or_eq_none_iff, Option.map_eq_none_iff] at h
    cases region with
    | output => simp [dropPrefix?_eq_some.2 rfl] at h
    | tag => simp [dropPrefix?_eq_some.2 rfl] at h
  · intro hb
    refine Option.eq_none_iff_forall_not_mem.2 fun o ho => hb ⟨o.1, ?_⟩
    exact ⟨_, (opening?_eq_some.1 ho).1.symm⟩

/-- The first opening delimiter, and the text before it. -/
theorem findOpening?_eq_some {o : Opening} : findOpening? s = some o ↔
    s = o.before ++ o.here ∧ opening? o.here = some (o.region, o.mark) ∧
      Nowhere BeginsRegion o.before o.here := by
  constructor
  · intro h
    induction s generalizing o with
    | nil => cases h
    | cons c rest ih =>
      rw [findOpening?] at h
      split at h
      · rename_i hm
        cases h
        exact ⟨rfl, hm, nowhere_nil⟩
      · rename_i hn
        obtain ⟨o', ho, rfl⟩ := Option.map_eq_some_iff.1 h
        obtain ⟨he, hm, hw⟩ := ih ho
        have hc : ¬ BeginsRegion (c :: (o'.before ++ o'.here)) := he ▸ opening?_eq_none.1 hn
        exact ⟨congrArg (c :: ·) he, hm, nowhere_cons_iff.2 ⟨hc, hw⟩⟩
  · obtain ⟨before, region, here, mark⟩ := o
    dsimp only
    intro h
    obtain ⟨rfl, hm, hw⟩ := h
    induction before with
    | nil =>
      cases here with
      | nil => cases hm
      | cons c rest => rw [List.nil_append, findOpening?, hm]
    | cons c before ih =>
      obtain ⟨hc, hw⟩ := nowhere_cons_iff.1 hw
      rw [List.cons_append, findOpening?, opening?_eq_none.2 hc, ih hw]
      rfl

theorem findOpening?_eq_none : findOpening? s = none ↔ Nowhere BeginsRegion s [] := by
  induction s with
  | nil => exact ⟨fun _ => nowhere_nil, fun _ => rfl⟩
  | cons c rest ih =>
    rw [findOpening?, nowhere_cons_iff, List.append_nil, ← opening?_eq_none, ← ih]
    cases opening? (c :: rest) with
    | none => simp
    | some o => simp

/-- A closing delimiter begins with neither a blank nor a word character. -/
theorem closing_eq_cons (d : Delimited) :
    ∃ c cs, d.closing = c :: cs ∧ isBlank c = false ∧ isWord c = false := by
  obtain ⟨region, left, inside, right⟩ := d
  cases region <;> cases right <;> exact ⟨_, _, rfl, by decide⟩

/-- A closing delimiter behind blanks ends the region. -/
theorem scans_closing {d : Delimited} {begin blank rest : List Char} {point : Bool}
    (hb : Blank blank) :
    Scans (inside d.region begin point (blank ++ (d.closing ++ rest)))
      [⟨d.region.closeKind, d.region.closer, d.closing ++ rest, d.right⟩] d.right rest := by
  have hclose : closing? d.region (d.closing ++ rest) = some ⟨d.right, rest⟩ :=
    closing?_eq_some.2 (List.append_assoc _ _ _)
  obtain ⟨c, cs, hc, hcb, -⟩ := closing_eq_cons d
  rw [hc, List.cons_append] at hclose ⊢
  have ht : trimStart (blank ++ c :: (cs ++ rest)) = c :: (cs ++ rest) :=
    trimStart_append hb (by simpa using hcb)
  unfold inside
  split
  · rename_i he
    rw [ht] at he
    cases he
  · rename_i e es he
    rw [ht] at he
    obtain ⟨rfl, rfl⟩ := List.cons.inj he
    dsimp only
    split
    · rename_i m hm
      rw [hclose] at hm
      cases hm
      exact ⟨_, rfl, rfl, rfl, rfl⟩
    · rename_i hm
      rw [hclose] at hm
      cases hm

theorem source_append (d : Delimited) (rest : List Char) : d.source ++ rest =
    d.region.opener ++ (markOf d.left ++ (d.inside ++ (d.closing ++ rest))) := by
  simp [Delimited.source]

/-- What follows an opening delimiter without a mark does not begin with a hyphen. -/
theorem head?_of_marked {d : Delimited} (h : d.Marked) (hl : d.left = false) (rest : List Char) :
    (d.inside ++ (d.closing ++ rest)).head? ≠ some '-' := by
  obtain ⟨c, cs, hc, -⟩ := closing_eq_cons d
  have hleft := h.left hl
  rw [hc] at hleft ⊢
  cases hi : d.inside with
  | nil => simpa [hi] using hleft
  | cons e es => simpa [hi] using hleft

/-- The closing delimiter of a tag begins in the text before it, or it is the one behind it. -/
theorem closer_prefix {before rest : List Char} {right : Bool}
    (h : Region.tag.closer <+: before ++ (markOf right ++ (Region.tag.closer ++ rest))) :
    Region.tag.closer <:+: before ∨ before = [] ∧ right = false := by
  cases before with
  | nil => cases right <;> simp [Region.closer, markOf] at h ⊢
  | cons c before =>
    cases before with
    | nil => cases right <;> simp [Region.closer, markOf] at h
    | cons d before =>
      refine .inl (List.IsPrefix.isInfix ?_)
      simpa [Region.closer] using h

/-- A text in front of a closing delimiter holds none itself and ends in no hyphen that would be its
mark. -/
structure Unclosed (right : Bool) (before : List Char) : Prop where
  free : ¬ Region.tag.closer <:+: before
  last : right = false → before.getLast? ≠ some '-'

theorem unclosed_nil (right : Bool) : Unclosed right [] := ⟨by simp [Region.closer], by simp⟩

/-- Such a text is one where no closing delimiter begins, character by character. -/
theorem unclosed_cons_iff {c : Char} {before rest : List Char} {right : Bool} :
    Unclosed right (c :: before) ↔
      closing? .tag (c :: (before ++ (markOf right ++ (Region.tag.closer ++ rest)))) = none ∧
        Unclosed right before := by
  constructor
  · intro h
    have hfree : ¬ Region.tag.closer <:+: before :=
      fun hi => h.free (List.infix_cons_iff.2 (.inr hi))
    refine ⟨Option.eq_none_iff_forall_not_mem.2 fun m hm => ?_, hfree, fun hf hl => h.last hf ?_⟩
    · have hm := closing?_eq_some.1 hm
      cases htrim : m.trim with
      | false =>
        rw [htrim, ← List.cons_append] at hm
        rcases closer_prefix ⟨m.rest, hm.symm⟩ with hi | hi
        · exact h.free hi
        · exact absurd hi.1 (by simp)
      | true =>
        rw [htrim] at hm
        obtain ⟨rfl, hrest⟩ := List.cons.inj hm
        rcases closer_prefix ⟨m.rest, hrest.symm⟩ with hi | ⟨rfl, hright⟩
        · exact hfree hi
        · exact h.last hright rfl
    · cases before with
      | nil => simp at hl
      | cons d before => simpa using hl
  · intro h
    obtain ⟨hn, h⟩ := h
    have hnot (m : Mark) :
        c :: (before ++ (markOf right ++ (Region.tag.closer ++ rest))) ≠
          markOf m.trim ++ (Region.tag.closer ++ m.rest) := fun hc => by
      rw [closing?_eq_some.2 hc] at hn
      cases hn
    constructor
    · intro hi
      rcases List.infix_cons_iff.1 hi with ⟨u, hu⟩ | hi
      · refine hnot ⟨false, u ++ (markOf right ++ (Region.tag.closer ++ rest))⟩ ?_
        rw [← List.cons_append, ← hu, List.append_assoc]
        rfl
      · exact h.free hi
    · intro hf hl
      cases before with
      | nil =>
        obtain rfl : c = '-' := by simpa using hl
        subst hf
        exact hnot ⟨true, rest⟩ rfl
      | cons d before => exact h.last hf (by simpa using hl)

/-- The first closing delimiter of a tag with its mark, behind a text without one. -/
theorem findClosing?_eq_some : findClosing? .tag s = some (t, m) ↔
    ∃ before, s = before ++ t ∧ t = markOf m.trim ++ (Region.tag.closer ++ m.rest) ∧
      Unclosed m.trim before := by
  constructor
  · intro h
    induction s with
    | nil => cases h
    | cons c rest ih =>
      rw [findClosing?] at h
      split at h
      · rename_i hm
        cases h
        exact ⟨[], rfl, closing?_eq_some.1 hm, unclosed_nil m.trim⟩
      · rename_i hn
        obtain ⟨before, rfl, rfl, hb⟩ := ih h
        exact ⟨c :: before, rfl, rfl, unclosed_cons_iff.2 ⟨hn, hb⟩⟩
  · intro h
    obtain ⟨before, rfl, rfl, hb⟩ := h
    induction before with
    | nil =>
      have hc := closing?_eq_some.2 (rfl : _ = markOf m.trim ++ (Region.tag.closer ++ m.rest))
      cases hs : markOf m.trim ++ (Region.tag.closer ++ m.rest) with
      | nil => simp [Region.closer] at hs
      | cons c u =>
        rw [hs] at hc
        rw [List.nil_append, findClosing?, hc]
    | cons c before ih =>
      obtain ⟨hn, hb⟩ := unclosed_cons_iff.1 hb
      rw [List.cons_append, findClosing?, hn]
      exact ih hb

theorem closing_append {d : Delimited} (hr : d.region = .tag) (rest : List Char) :
    d.closing ++ rest = markOf d.right ++ (Region.tag.closer ++ rest) := by
  rw [Delimited.closing, hr, List.append_assoc]

/-- The closing delimiter of a tag is found behind what the tag holds. -/
theorem findClosing?_closing {d : Delimited} {before content : List Char} (hr : d.region = .tag)
    (hm : d.Marked) (hi : d.inside = before ++ content) (hfree : ¬ Region.tag.closer <:+: content)
    (rest : List Char) :
    findClosing? .tag (content ++ (d.closing ++ rest)) =
      some (d.closing ++ rest, ⟨d.right, rest⟩) := by
  refine findClosing?_eq_some.2 ⟨content, rfl, closing_append hr rest, hfree, fun hf hl => ?_⟩
  refine hm.right hf ?_
  rw [hi, List.getLast?_append, hl]
  rfl

end

end Lexer

/-! ## Words -/

namespace Lexer

/-- Words with blanks before each and behind the last, in front of `after`; each is the longest that
is written there, and `point` tells whether a point stands before the first. -/
inductive IntoWords (after : List Char) : Bool → List Char → List Lexeme → Prop where
  | nil {point : Bool} {blank : List Char} : Blank blank → IntoWords after point blank []
  | cons {point : Bool} {blank s : List Char} {w : Spelling} {ls : List Lexeme} :
    Blank blank → Takes point w (s ++ after) → IntoWords after (w.kind == .dot) s ls →
    IntoWords after point (blank ++ (w.chars ++ s))
      (⟨w.kind, w.text.toList, w.chars ++ (s ++ after), false⟩ :: ls)

/-- A hyphen in front of a closing delimiter belongs to no word. -/
theorem IntoWords.getLast?_ne {after s : List Char} {point : Bool} {ls : List Lexeme}
    (h : IntoWords after point s ls) : s.getLast? ≠ some '-' := by
  induction h with
  | nil hb => exact hb.getLast?_ne
  | @cons _ _ _ w _ hb _ _ ih =>
    exact getLast?_append_ne hb.getLast?_ne (getLast?_append_ne w.spells.getLast?_ne ih)

/-- What is read inside a region with words: the words and the closing delimiter. -/
theorem inside_eq_ok {region : Region} {begin : List Char} {point : Bool} {s : List Char}
    {r : Scan s} (h : inside region begin point s = .ok r) :
    ∃ inner words, s = inner ++ (markOf r.trim ++ (region.closer ++ r.rest)) ∧
      IntoWords (markOf r.trim ++ (region.closer ++ r.rest)) point inner words ∧
      r.lexemes = words ++ [⟨region.closeKind, region.closer,
        markOf r.trim ++ (region.closer ++ r.rest), r.trim⟩] := by
  have hs : s = s.takeWhile isBlank ++ trimStart s := (trimStart_eq s).symm
  have hb := blank_takeWhile s
  unfold inside at h
  split at h
  · cases h
  · rename_i c rest ht
    dsimp only at h
    split at h
    · rename_i m hm
      cases h
      have hm := closing?_eq_some.1 hm
      refine ⟨s.takeWhile isBlank, [], ?_, .nil hb, ?_⟩
      · rw [← hm, ← ht]
        exact hs
      · exact congrArg (fun u => [(⟨region.closeKind, region.closer, u, m.trim⟩ : Lexeme)]) hm
    · cases hw : word point c rest with
      | error e => rw [hw] at h; cases h
      | ok w =>
        have hl : w.rest.length < s.length :=
          Nat.lt_of_lt_of_le w.shorter (ht ▸ trimStart_length_le s)
        rw [hw] at h
        change (inside region begin (w.lexeme.kind == .dot) w.rest >>= _) = _ at h
        cases hmore : inside region begin (w.lexeme.kind == .dot) w.rest with
        | error e => rw [hmore] at h; cases h
        | ok more =>
          rw [hmore] at h
          cases h
          obtain ⟨inner, words, hrest, hwords, hls⟩ := inside_eq_ok hmore
          obtain ⟨v, hlex, he, htakes⟩ := word_eq_ok hw
          have here := he.trans (congrArg (v.chars ++ ·) hrest)
          rw [hlex] at hwords
          refine ⟨_, _, ?_, .cons hb (hrest ▸ htakes) hwords, ?_⟩
          · rw [List.append_assoc, List.append_assoc, ← here, ← ht]
            exact hs
          · have hword := congrArg (fun u => (⟨v.kind, v.text.toList, u, false⟩ : Lexeme)) here
            exact congr (congrArg List.cons (hlex.trans hword)) hls
termination_by s.length

end Lexer

end Liquid
