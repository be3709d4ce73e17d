import Liquid.Proofs.Reading.Delimited

/-!
# The end of a verbatim block

The content of a raw block goes up to the first tag that ends it, whatever stands before.  Inside a
comment the tags that open and close comments are counted, and nothing else is looked at.

* `Lexer.endRaw?_eq_some`, `Lexer.commentTag?_eq_some`: the tags that are looked for.
* `Lexer.findEnd?_eq_some`: the end of a verbatim block, and what its content can be.
-/
namespace Liquid

open Liquid.Text

/-! ## Tags -/

/-- A tag that holds blanks and then a word of which `p` is true. -/
structure Tagged (p : List Char → Prop) (d : Delimited) (word : List Char) : Prop where
  region : d.region = .tag
  marked : d.Marked
  inside : ∃ blank, Blank blank ∧ d.inside = blank ++ word
  holds : p word

/-- What the tag that ends a raw block holds. -/
def RawEnd (word : List Char) : Prop := ∃ blank, Blank blank ∧ word = "endraw".toList ++ blank

/-- What a tag holds that opens or closes a comment: the keyword and whatever else. -/
def CommentWord (keyword : String) (word : List Char) : Prop :=
  ∃ tail, word = keyword.toList ++ tail ∧ (∀ c ∈ tail.head?, isWord c = false) ∧
    ¬ Region.tag.closer <:+: tail

/-- A tag as it is found in front of `rest`. -/
def Delimited.found (d : Delimited) (word rest : List Char) : Lexer.VerbatimTag :=
  ⟨d.source ++ rest, d.left, word ++ (d.closing ++ rest), d.region.closer ++ rest, d.right, rest⟩

namespace Lexer

section

variable {s t word rest : List Char} {m : Mark} {d : Delimited} {p : List Char → Prop}
  {right : Bool} {keyword : String}

theorem tagWord?_eq_some : tagWord? s = some m ↔
    ∃ t, s = Region.tag.opener ++ (markOf m.trim ++ t) ∧
    (m.trim = false → t.head? ≠ some '-') ∧ m.rest = trimStart t := by
  obtain ⟨trim, rest⟩ := m
  constructor
  · intro h
    unfold tagWord? at h
    split at h
    · rename_i t hd
      cases h
      exact ⟨t, dropPrefix?_eq_some.1 hd, by simp, rfl⟩
    · rename_i t hn hd
      cases h
      exact ⟨t, dropPrefix?_eq_some.1 hd, fun _ => head?_ne_of_forall hn, rfl⟩
    · cases h
  · intro h
    obtain ⟨t, rfl, ht, rfl⟩ := h
    unfold tagWord?
    rw [dropPrefix?_eq_some.2 rfl]
    cases trim with
    | true => rfl
    | false =>
      split
      · rename_i u hu
        cases hu
        exact absurd rfl (ht rfl)
      · rename_i hu
        cases hu
        rfl
      · rename_i hu
        cases hu

theorem tagged_of_tagWord (h : tagWord? s = some m)
    (hm : m.rest = word ++ (markOf right ++ (Region.tag.closer ++ rest))) (hn : word ≠ [])
    (hl : right = false → word.getLast? ≠ some '-') (hp : p word) :
    ∃ d, Tagged p d word ∧ s = d.source ++ rest ∧
      (⟨s, m.trim, m.rest, Region.tag.closer ++ rest, right, rest⟩ : VerbatimTag) =
        d.found word rest := by
  obtain ⟨t, hs, hleft, hrest⟩ := tagWord?_eq_some.1 h
  obtain ⟨blank, hb, ht⟩ : ∃ blank, Blank blank ∧ t = blank ++ m.rest :=
    ⟨_, blank_takeWhile t, hrest ▸ (trimStart_eq t).symm⟩
  have hsource : s = Delimited.source ⟨.tag, m.trim, blank ++ word, right⟩ ++ rest := by
    rw [hs, ht, hm]
    simp [Delimited.source, Delimited.closing]
  refine ⟨⟨.tag, m.trim, blank ++ word, right⟩, ⟨rfl, ⟨?_, ?_⟩, ⟨blank, hb, rfl⟩, hp⟩, hsource, ?_⟩
  · intro hf
    refine head?_append_ne (t := rest) ?_
    have hleft := hleft hf
    rw [ht, hm] at hleft
    simpa [Delimited.closing] using hleft
  · intro hf
    exact getLast?_append_of_ne_nil hn (hl hf)
  · simp [Delimited.found, Delimited.closing, hm, ← hsource]

theorem closeOf_closing (d : Delimited) (rest : List Char) :
    closeOf (d.closing ++ rest) ⟨d.right, rest⟩ = d.region.closer ++ rest := by
  unfold Delimited.closing closeOf
  cases d.right <;> rfl

theorem closeOf_eq (h : s = markOf m.trim ++ (Region.tag.closer ++ m.rest)) :
    closeOf s m = Region.tag.closer ++ m.rest := by
  subst h
  unfold closeOf
  cases m.trim <;> rfl

/-- The word of a tag that is written down is found. -/
theorem tagWord?_source (h : Tagged p d word) (hw : ∀ c ∈ word.head?, isBlank c = false)
    (hn : word ≠ []) (rest : List Char) :
    tagWord? (d.source ++ rest) = some ⟨d.left, word ++ (d.closing ++ rest)⟩ := by
  obtain ⟨blank, hb, hi⟩ := h.inside
  refine tagWord?_eq_some.2 ⟨d.inside ++ (d.closing ++ rest), ?_, ?_, ?_⟩
  · rw [source_append, h.region]
  · exact fun hf => head?_of_marked h.marked hf rest
  · rw [hi, List.append_assoc, trimStart_append hb]
    obtain ⟨c, cs, rfl⟩ := List.exists_cons_of_ne_nil hn
    exact hw

theorem endRaw?_found {t : VerbatimTag} (h : endRaw? s = some t) :
    ∃ d word rest, Tagged RawEnd d word ∧ s = d.source ++ rest ∧ t = d.found word rest := by
  simp only [endRaw?, Option.bind_eq_bind, Option.bind_eq_some_iff, Option.pure_def,
    Option.some.injEq] at h
  obtain ⟨m, hm, after, ha, c, hc, rfl⟩ := h
  have hword := dropPrefix?_eq_some.1 ha
  have hclose := closing?_eq_some.1 hc
  have hafter : after = after.takeWhile isBlank ++ trimStart after := (trimStart_eq after).symm
  have hb := blank_takeWhile after
  generalize after.takeWhile isBlank = blank at hafter hb
  have hrest : m.rest = ("endraw".toList ++ blank) ++
      (markOf c.trim ++ (Region.tag.closer ++ c.rest)) := by
    rw [hword, List.append_assoc, ← hclose, ← hafter]
  have hend : c.trim = false → ("endraw".toList ++ blank).getLast? ≠ some '-' :=
    fun _ => getLast?_append_ne (by decide) hb.getLast?_ne
  have hp : RawEnd ("endraw".toList ++ blank) := ⟨blank, hb, rfl⟩
  obtain ⟨d, hd, hs, ht⟩ := tagged_of_tagWord hm hrest (by simp) hend hp
  exact ⟨d, _, c.rest, hd, hs, by rw [← ht, closeOf_eq hclose]⟩

theorem endRaw?_source (hd : Tagged RawEnd d word) (rest : List Char) :
    endRaw? (d.source ++ rest) = some (d.found word rest) := by
  obtain ⟨blank, hb, rfl⟩ := hd.holds
  have hm := tagWord?_source hd (by simp; decide) (by simp) rest
  have hafter : dropPrefix? "endraw".toList ("endraw".toList ++ blank ++ (d.closing ++ rest)) =
      some (blank ++ (d.closing ++ rest)) := by
    rw [List.append_assoc]
    exact dropPrefix?_eq_some.2 rfl
  have hclose : closing? .tag (d.closing ++ rest) = some ⟨d.right, rest⟩ :=
    closing?_eq_some.2 (closing_append hd.region rest)
  obtain ⟨c, cs, hc, hcb, -⟩ := closing_eq_cons d
  have htrim : trimStart (blank ++ (d.closing ++ rest)) = d.closing ++ rest :=
    trimStart_append hb (by simpa [hc] using hcb)
  simp only [endRaw?, hm, hafter, hclose, htrim, Option.bind_eq_bind, Option.bind_some,
    Option.pure_def, Delimited.found, closeOf_closing]

/-- The end of a raw block, where it stands. -/
theorem endRaw?_eq_some {t : VerbatimTag} : endRaw? s = some t ↔
    ∃ d word rest, Tagged RawEnd d word ∧ s = d.source ++ rest ∧ t = d.found word rest := by
  constructor
  · exact endRaw?_found
  · intro h
    obtain ⟨d, word, rest, hd, rfl, rfl⟩ := h
    exact endRaw?_source hd rest

/-- The keyword of a tag that closes a comment or opens one. -/
def commentKeyword (closes : Bool) : String := if closes then "endcomment" else "comment"

theorem commentKeyword_ne_nil (closes : Bool) : (commentKeyword closes).toList ≠ [] := by
  cases closes <;> decide

theorem commentTag?_found {closes : Bool} {t : VerbatimTag}
    (h : commentTag? s = some (closes, t)) :
    ∃ d word rest, Tagged (CommentWord (commentKeyword closes)) d word ∧ s = d.source ++ rest ∧
      t = d.found word rest := by
  simp only [commentTag?, Option.bind_eq_bind, Option.bind_eq_some_iff, Prod.exists] at h
  obtain ⟨m, hm, closes', after, ha, h⟩ := h
  have hword : m.rest = (commentKeyword closes').toList ++ after := by
    simp only [Option.or_eq_some_iff, Option.map_eq_some_iff, Prod.mk.injEq] at ha
    rcases ha with ⟨x, hx, rfl, rfl⟩ | ⟨-, x, hx, rfl, rfl⟩
    · exact dropPrefix?_eq_some.1 hx
    · exact dropPrefix?_eq_some.1 hx
  split at h
  · rename_i hends
    simp only [Option.bind_eq_some_iff, Prod.exists, Option.pure_def, Option.some.injEq,
      Prod.mk.injEq] at h
    obtain ⟨closer, c, hc, rfl, rfl⟩ := h
    obtain ⟨tail, rfl, hclose, hb⟩ := findClosing?_eq_some.1 hc
    have hp : CommentWord (commentKeyword closes') ((commentKeyword closes').toList ++ tail) := by
      refine ⟨tail, rfl, ?_, hb.free⟩
      cases tail with
      | nil => simp
      | cons d tail => simpa [endsWord] using hends
    have hrest : m.rest = ((commentKeyword closes').toList ++ tail) ++
        (markOf c.trim ++ (Region.tag.closer ++ c.rest)) := by
      rw [hword, hclose, List.append_assoc]
    have hkey : (commentKeyword closes').toList.getLast? ≠ some '-' := by
      cases closes' <;> decide
    obtain ⟨d, hd, hs, ht⟩ := tagged_of_tagWord hm hrest
      (List.append_ne_nil_of_left_ne_nil (commentKeyword_ne_nil closes') tail)
      (fun hf => getLast?_append_ne hkey (hb.last hf)) hp
    exact ⟨d, _, c.rest, hd, hs, by rw [← ht, closeOf_eq hclose]⟩
  · cases h

/-- A keyword of comments that no word character follows, in a tag that is closed. -/
theorem commentTag?_keyword {closes trim : Bool} {after closer : List Char} {c : Mark}
    (hm : tagWord? s = some ⟨trim, (commentKeyword closes).toList ++ after⟩)
    (hends : endsWord after = true) (hc : findClosing? .tag after = some (closer, c)) :
    commentTag? s = some (closes, ⟨s, trim, (commentKeyword closes).toList ++ after,
      closeOf closer c, c.trim, c.rest⟩) := by
  cases closes <;> simp [commentTag?, hm, commentKeyword, dropPrefix?, hends, hc]

theorem endsWord_closing {tail : List Char} (hw : ∀ c ∈ tail.head?, isWord c = false)
    (d : Delimited) (rest : List Char) : endsWord (tail ++ (d.closing ++ rest)) = true := by
  obtain ⟨c, cs, hc, -, hcw⟩ := closing_eq_cons d
  cases tail with
  | nil => simpa [hc, endsWord] using hcw
  | cons c tail => simpa [endsWord] using hw

theorem commentTag?_source (closes : Bool)
    (hd : Tagged (CommentWord (commentKeyword closes)) d word) (rest : List Char) :
    commentTag? (d.source ++ rest) = some (closes, d.found word rest) := by
  obtain ⟨tail, rfl, hw, hfree⟩ := hd.holds
  obtain ⟨blank, -, hi⟩ := hd.inside
  have hm := tagWord?_source hd (by cases closes <;> simp [commentKeyword] <;> decide)
    (List.append_ne_nil_of_left_ne_nil (commentKeyword_ne_nil closes) tail) rest
  have hclose := findClosing?_closing hd.region hd.marked
    (hi.trans (List.append_assoc blank _ tail).symm) hfree rest
  rw [List.append_assoc] at hm
  rw [commentTag?_keyword hm (endsWord_closing hw d rest) hclose, closeOf_closing, Delimited.found, List.append_assoc]

/-- A tag that opens or closes a comment, where it stands. -/
theorem commentTag?_eq_some {closes : Bool} {t : VerbatimTag} :
    commentTag? s = some (closes, t) ↔ ∃ d word rest,
      Tagged (CommentWord (commentKeyword closes)) d word ∧ s = d.source ++ rest ∧
        t = d.found word rest := by
  constructor
  · exact commentTag?_found
  · intro h
    obtain ⟨d, word, rest, hd, rfl, rfl⟩ := h
    exact commentTag?_source closes hd rest

/-- A tag of which `p` is true begins here. -/
def BeginsTag (p : List Char → Prop) (s : List Char) : Prop :=
  ∃ d word rest, Tagged p d word ∧ s = d.source ++ rest

theorem endRaw?_eq_none : endRaw? s = none ↔ ¬ BeginsTag RawEnd s := by
  constructor
  · intro h hb
    obtain ⟨d, word, rest, hd, hs⟩ := hb
    have hsome := endRaw?_eq_some.2 ⟨d, word, rest, hd, hs, rfl⟩
    rw [h] at hsome
    cases hsome
  · intro hb
    refine Option.eq_none_iff_forall_not_mem.2 fun t ht => hb ?_
    obtain ⟨d, word, rest, hd, hs, -⟩ := endRaw?_eq_some.1 ht
    exact ⟨d, word, rest, hd, hs⟩

theorem commentTag?_eq_none : commentTag? s = none ↔
    ∀ closes, ¬ BeginsTag (CommentWord (commentKeyword closes)) s := by
  constructor
  · intro h closes hb
    obtain ⟨d, word, rest, hd, hs⟩ := hb
    have hsome := commentTag?_eq_some.2 ⟨d, word, rest, hd, hs, rfl⟩
    rw [h] at hsome
    cases hsome
  · intro hb
    refine Option.eq_none_iff_forall_not_mem.2 fun t ht => hb t.1 ?_
    obtain ⟨d, word, rest, hd, hs, -⟩ := commentTag?_eq_some.1 ht
    exact ⟨d, word, rest, hd, hs⟩

/-! ## The content of a verbatim block -/

/-- The content of a comment inside which `depth` further comments are open, in front of `after`:
the tags of comments in it are balanced. -/
inductive Commented (after : List Char) : Nat → List Char → Prop where
  | nil : Commented after 0 []
  | char {depth : Nat} {c : Char} {s : List Char} :
    (∀ closes, ¬ BeginsTag (CommentWord (commentKeyword closes)) (c :: (s ++ after))) →
    Commented after depth s → Commented after depth (c :: s)
  | opens {depth : Nat} {d : Delimited} {word s : List Char} :
    Tagged (CommentWord "comment") d word → Commented after (depth + 1) s →
    Commented after depth (d.source ++ s)
  | closes {depth : Nat} {d : Delimited} {word s : List Char} :
    Tagged (CommentWord "endcomment") d word → Commented after depth s →
    Commented after (depth + 1) (d.source ++ s)

/-- What the end tag of a verbatim block holds. -/
def Verbatim.End : Verbatim → List Char → Prop
  | .raw => RawEnd
  | .comment => CommentWord "endcomment"

/-- What a verbatim block can hold in front of `after`. -/
def Verbatim.Holds : Verbatim → (body after : List Char) → Prop
  | .raw, body, after => Nowhere (BeginsTag RawEnd) body after
  | .comment, body, after => Commented after 0 body

theorem source_ne_nil (d : Delimited) : d.source ≠ [] := by
  unfold Delimited.source
  cases d.region <;> simp [Region.opener]

theorem findEndRaw?_eq_some {t : VerbatimTag} : findEndRaw? s = some t ↔
    ∃ body d word rest, Nowhere (BeginsTag RawEnd) body (d.source ++ rest) ∧
      Tagged RawEnd d word ∧ s = body ++ (d.source ++ rest) ∧ t = d.found word rest := by
  constructor
  · intro h
    induction s with
    | nil => cases h
    | cons c s ih =>
      rcases Option.or_eq_some_iff.1 h with h | ⟨hn, h⟩
      · obtain ⟨d, word, rest, hd, hs, ht⟩ := endRaw?_eq_some.1 h
        exact ⟨[], d, word, rest, nowhere_nil, hd, hs, ht⟩
      · obtain ⟨body, d, word, rest, hbody, hd, rfl, ht⟩ := ih h
        have hbody := nowhere_cons_iff.2 ⟨endRaw?_eq_none.1 hn, hbody⟩
        exact ⟨c :: body, d, word, rest, hbody, hd, rfl, ht⟩
  · intro h
    obtain ⟨body, d, word, rest, hbody, hd, rfl, rfl⟩ := h
    induction body with
    | nil =>
      have hsome := endRaw?_eq_some.2 ⟨d, word, rest, hd, rfl, rfl⟩
      cases hs : d.source ++ rest with
      | nil => exact absurd (List.append_eq_nil_iff.1 hs).1 (source_ne_nil d)
      | cons c s =>
        rw [hs] at hsome
        rw [List.nil_append, findEndRaw?, hsome]
        rfl
    | cons c body ih =>
      obtain ⟨hc, hbody⟩ := nowhere_cons_iff.1 hbody
      rw [List.cons_append, findEndRaw?, endRaw?_eq_none.2 hc, ih hbody]
      rfl

theorem findEndComment?_found {depth : Nat} {t : VerbatimTag}
    (h : findEndComment? depth s = some t) :
    ∃ body d word rest, Commented (d.source ++ rest) depth body ∧
      Tagged (CommentWord "endcomment") d word ∧ s = body ++ (d.source ++ rest) ∧
        t = d.found word rest := by
  fun_induction findEndComment? depth s with
  | case1 => cases h
  | case2 c s t' ht =>
    cases h
    obtain ⟨d, word, rest, hd, hs, he⟩ := commentTag?_eq_some.1 ht
    exact ⟨[], d, word, rest, .nil, hd, hs, he⟩
  | case3 c s t' ht depth ih =>
    obtain ⟨d', word', rest', hd', hs, rfl⟩ := commentTag?_eq_some.1 ht
    obtain ⟨body, d, word, rest, hbody, hd, he, htag⟩ := ih h
    refine ⟨d'.source ++ body, d, word, rest, .closes hd' hbody, hd, ?_, htag⟩
    rw [hs, List.append_assoc, ← he]
    rfl
  | case4 depth c s t' ht ih =>
    obtain ⟨d', word', rest', hd', hs, rfl⟩ := commentTag?_eq_some.1 ht
    obtain ⟨body, d, word, rest, hbody, hd, he, htag⟩ := ih h
    refine ⟨d'.source ++ body, d, word, rest, .opens hd' hbody, hd, ?_, htag⟩
    rw [hs, List.append_assoc, ← he]
    rfl
  | case5 depth c s ht ih =>
    obtain ⟨body, d, word, rest, hbody, hd, rfl, htag⟩ := ih h
    exact ⟨c :: body, d, word, rest, .char (commentTag?_eq_none.1 ht) hbody, hd, rfl, htag⟩

theorem findEndComment?_opens {t : VerbatimTag} (h : commentTag? s = some (false, t))
    (depth : Nat) : findEndComment? depth s = findEndComment? (depth + 1) t.rest := by
  cases s with
  | nil => cases h
  | cons c s =>
    rw [findEndComment?]
    split
    · rename_i ht
      rw [h] at ht
      cases ht
    · rename_i ht
      rw [h] at ht
      cases ht
      rfl
    · rename_i ht
      rw [h] at ht
      cases ht

theorem findEndComment?_closes {t : VerbatimTag} (h : commentTag? s = some (true, t)) :
    findEndComment? 0 s = some t ∧
      ∀ depth, findEndComment? (depth + 1) s = findEndComment? depth t.rest := by
  cases s with
  | nil => cases h
  | cons c s =>
    refine ⟨?_, fun depth => ?_⟩
    all_goals
      rw [findEndComment?]
      split
      · rename_i ht
        rw [h] at ht
        cases ht
        rfl
      · rename_i ht
        rw [h] at ht
        cases ht
      · rename_i ht
        rw [h] at ht
        cases ht

theorem findEndComment?_skip {c : Char} (h : commentTag? (c :: s) = none) (depth : Nat) :
    findEndComment? depth (c :: s) = findEndComment? depth s := by
  rw [findEndComment?]
  split
  · rename_i ht
    rw [h] at ht
    cases ht
  · rename_i ht
    rw [h] at ht
    cases ht
  · rfl

theorem findEndComment?_commented {depth : Nat} {body : List Char}
    (hbody : Commented (d.source ++ rest) depth body)
    (hd : Tagged (CommentWord "endcomment") d word) :
    findEndComment? depth (body ++ (d.source ++ rest)) = some (d.found word rest) := by
  induction hbody with
  | nil => exact (findEndComment?_closes (commentTag?_source true hd rest)).1
  | char hc _ ih =>
    rw [List.cons_append, findEndComment?_skip (commentTag?_eq_none.2 hc)]
    exact ih
  | @opens depth d' word' s ht _ ih =>
    rw [List.append_assoc, findEndComment?_opens (commentTag?_source false ht _)]
    exact ih
  | @closes depth d' word' s ht _ ih =>
    rw [List.append_assoc, (findEndComment?_closes (commentTag?_source true ht _)).2]
    exact ih

/-- The end of a verbatim block, and what stands before it. -/
theorem findEnd?_eq_some {v : Verbatim} {t : VerbatimTag} : v.findEnd? s = some t ↔
    ∃ body d word rest, v.Holds body (d.source ++ rest) ∧ Tagged v.End d word ∧
      s = body ++ (d.source ++ rest) ∧ t = d.found word rest := by
  cases v with
  | raw => exact findEndRaw?_eq_some
  | comment =>
    constructor
    · exact findEndComment?_found
    · intro h
      obtain ⟨body, d, word, rest, hbody, hd, rfl, rfl⟩ := h
      exact findEndComment?_commented hbody hd

end

end Lexer

end Liquid
