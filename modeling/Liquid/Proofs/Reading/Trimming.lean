import Liquid.Proofs.Reading.Verbatim
import Liquid.Proofs.Reading.Layout

/-!
# How a source is cut into tokens

A source is texts and regions in turn, and nothing is lost between them: put together they are the
source again.  A text is kept as it stands but for the blanks beside a region that asks for trimming
on that side, and leaves a token unless nothing of it is kept.  The content of a verbatim block is
trimmed by the same rule, between its own two tags.

* `Trims`: what is left of a text when the blanks at its ends are trimmed.
* `Area`: a region as it is written, with its lexemes.
* `Cut`: texts and regions in turn, with their lexemes.
* `Lexer.cut_lexemes`: the lexemes of a source are those of its texts and regions.
-/
namespace Liquid

open Liquid.Text

/-! ## Trimming -/

/-- A text without the blanks at those of its ends that are to be trimmed, and with all the rest of
it. -/
structure Trims (left right : Bool) (text kept : List Char) : Prop where
  parts : ∃ a b, text = a ++ (kept ++ b) ∧ Blank a ∧ Blank b ∧ (left = false → a = []) ∧
    (right = false → b = [])
  begins : left = true → ∀ c ∈ kept.head?, isBlank c = false
  ends : right = true → ∀ c ∈ kept.getLast?, isBlank c = false

section

variable {left right : Bool} {text kept : List Char}

theorem trims_start (s : List Char) : Trims true false s (trimStart s) where
  parts := ⟨s.takeWhile isBlank, [], by simp [trimStart_eq], blank_takeWhile s, blank_nil,
    by simp, by simp⟩
  begins _ := head?_trimStart s
  ends h := by cases h

/-- Trimming the end trims the reverse at its beginning, and leaves no blank there. -/
theorem getLast?_trimEnd (s : List Char) : ∀ c ∈ (trimEnd s).getLast?, isBlank c = false := by
  intro c hc
  rw [trimEnd, List.getLast?_reverse] at hc
  exact head?_trimStart s.reverse c hc

theorem Trims.end_of (h : Trims left false text kept) : Trims left true text (trimEnd kept) := by
  obtain ⟨w, hw, hb⟩ := trimEnd_append kept
  obtain ⟨a, b, he, ha, -, hl, hr⟩ := h.parts
  obtain rfl := hr rfl
  refine ⟨⟨a, w, ?_, ha, hb, hl, by simp⟩, ?_, ?_⟩
  · rw [he, hw, List.append_nil]
  · intro ht c hc
    refine h.begins ht c ?_
    rw [← hw]
    cases hk : trimEnd kept with
    | nil => simp [hk] at hc
    | cons d ds => simpa [hk] using hc
  · intro _ c hc
    exact getLast?_trimEnd kept c hc

theorem trims_trimmed (left right : Bool) (s : List Char) :
    Trims left right s (Lexer.trimmed left right s) := by
  have whole : Trims false false s s := ⟨⟨[], [], by simp, blank_nil, blank_nil, by simp, by simp⟩,
    by simp, by simp⟩
  cases left <;> cases right
  · exact whole
  · exact whole.end_of
  · exact trims_start s
  · exact (trims_start s).end_of

end

theorem trimEnd_of_blank {b : List Char} (hk : ∀ c ∈ kept.getLast?, isBlank c = false)
    (hb : Blank b) : trimEnd (kept ++ b) = kept := by
  have hr : Blank b.reverse := fun c hc => hb c (List.mem_reverse.1 hc)
  have h := trimStart_append hr (t := kept.reverse) (by simpa using hk)
  rw [trimEnd, List.reverse_append]
  exact (congrArg List.reverse h).trans (List.reverse_reverse kept)

/-- What is left of a text is settled: it is what trimming leaves. -/
theorem Trims.eq_trimmed (h : Trims left right text kept) :
    kept = Lexer.trimmed left right text := by
  obtain ⟨a, b, rfl, ha, hb, hl, hr⟩ := h.parts
  have hend : (if right then trimEnd (kept ++ b) else kept ++ b) = kept := by
    cases right with
    | false => simp [hr rfl]
    | true => exact trimEnd_of_blank (h.ends rfl) hb
  unfold Lexer.trimmed
  cases left with
  | false =>
    rw [hl rfl]
    exact hend.symm
  | true =>
    by_cases hn : kept = []
    · -- All of the text is blank, and the start takes it off whichever end it belongs to.
      have hs : trimStart (a ++ b) = [] := by
        simpa using trimStart_append (ha.append hb) (t := []) (by simp)
      subst hn
      cases right <;> simp [hs, trimEnd]
    · obtain ⟨c, cs, rfl⟩ := List.exists_cons_of_ne_nil hn
      have hs : trimStart (a ++ (c :: cs ++ b)) = c :: cs ++ b := trimStart_append ha (h.begins rfl)
      simp only [hs, if_true]
      exact hend.symm

/-- The token of a text of which `kept` is left, unless nothing is. -/
def dataOf (kept here : List Char) : List Lexeme :=
  if kept = [] then [] else [⟨.data, kept, here, false⟩]

theorem data_eq (left right : Bool) (text here : List Char) :
    Lexer.data left right text here = dataOf (Lexer.trimmed left right text) here := by
  unfold Lexer.data dataOf
  split
  · rename_i h
    rw [h]
    rfl
  · rename_i h
    rw [if_neg h]

/-! ## Regions -/

namespace Delimited

/-- The lexemes of a region that holds `words`, in front of `rest`. -/
def lexemes (d : Delimited) (words : List Lexeme) (rest : List Char) : List Lexeme :=
  ⟨d.region.openKind, d.region.opener, d.source ++ rest, d.left⟩ ::
    (words ++ [⟨d.region.closeKind, d.region.closer, d.closing ++ rest, d.right⟩])

end Delimited

/-- A tag with these words begins a verbatim block. -/
def Lexer.Verbatim.OpenedBy (v : Lexer.Verbatim) (words : List Lexeme) : Prop :=
  ∃ keyword more, words = keyword :: more ∧ keyword.kind = .name ∧
    keyword.text = v.keyword.toList ∧ (v = .raw → more = [])

/-- The content and the end tag of a verbatim block, in front of `rest`. -/
def Lexer.Verbatim.lexemes (v : Lexer.Verbatim) (kept body : List Char) (e : Delimited)
    (word rest : List Char) : List Lexeme :=
  [⟨.raw, kept, body ++ (e.source ++ rest), false⟩,
    ⟨.blockBegin, Region.tag.opener, e.source ++ rest, e.left⟩,
    ⟨.name, ("end" ++ v.keyword).toList, word ++ (e.closing ++ rest), false⟩,
    ⟨.blockEnd, Region.tag.closer, e.region.closer ++ rest, e.right⟩]

/-- A region in front of `rest`: whether it asks for trimming before it, how it is written, whether
it asks for trimming behind it, and its lexemes.  It is an output or a tag with words, a note, or a
verbatim block from its tag to its end tag. -/
inductive Area (rest : List Char) : Bool → List Char → Bool → List Lexeme → Prop where
  | words {d : Delimited} {words : List Lexeme} :
    d.Marked → Lexer.IntoWords (d.closing ++ rest) false d.inside words →
    (d.region = .tag → ∀ v : Lexer.Verbatim, ¬ v.OpenedBy words) →
    Area rest d.left d.source d.right (d.lexemes words rest)
  | note {d : Delimited} {blank content : List Char} :
    d.region = .tag → d.Marked → Blank blank → d.inside = blank ++ '#' :: content →
    ¬ Region.tag.closer <:+: content →
    Area rest d.left d.source d.right (d.lexemes
      [⟨.name, ['#'], '#' :: (content ++ (d.closing ++ rest)), false⟩,
        ⟨.raw, trim content, content ++ (d.closing ++ rest), false⟩] rest)
  | verbatim {v : Lexer.Verbatim} {d e : Delimited} {words : List Lexeme}
    {body word kept : List Char} :
    d.region = .tag → d.Marked →
    Lexer.IntoWords (d.closing ++ (body ++ (e.source ++ rest))) false d.inside words →
    v.OpenedBy words →
    v.Holds body (e.source ++ rest) → Tagged v.End e word → Trims d.right e.left body kept →
    Area rest d.left (d.source ++ (body ++ e.source)) e.right
      (d.lexemes words (body ++ (e.source ++ rest)) ++ v.lexemes kept body e word rest)

/-- Texts and regions in turn, with their lexemes; `trim` tells whether the region before the first
text asks for trimming. -/
inductive Cut : Bool → List Char → List Lexeme → Prop where
  | last {trim : Bool} {text kept : List Char} :
    Nowhere Lexer.BeginsRegion text [] → Trims trim false text kept →
    Cut trim text (dataOf kept text ++ [⟨.eof, [], [], false⟩])
  | region {trim left right : Bool} {text kept source rest : List Char} {ls more : List Lexeme} :
    Nowhere Lexer.BeginsRegion text (source ++ rest) → Trims trim left text kept →
    Area rest left source right ls → Cut right rest more →
    Cut trim (text ++ (source ++ rest)) (dataOf kept (text ++ (source ++ rest)) ++ (ls ++ more))

namespace Lexer

section

variable {region : Region} {begin s : List Char} {r : Scan s} {left : Bool}

/-- The region around words that are read. -/
theorem delimited_inside (h : inside region begin false s = .ok r)
    (hl : left = false → s.head? ≠ some '-') : ∃ d : Delimited, ∃ words,
      (d.region = region ∧ d.left = left ∧ d.right = r.trim ∧ d.Marked) ∧
      region.opener ++ (markOf left ++ s) = d.source ++ r.rest ∧
      IntoWords (d.closing ++ r.rest) false d.inside words ∧
      r.lexemes = words ++ [⟨region.closeKind, region.closer, d.closing ++ r.rest, r.trim⟩] := by
  obtain ⟨inner, words, hs, hw, hls⟩ := inside_eq_ok h
  have hclosing : markOf r.trim ++ (region.closer ++ r.rest) =
      Delimited.closing ⟨region, left, inner, r.trim⟩ ++ r.rest := by
    simp [Delimited.closing]
  rw [hclosing] at hs hw hls
  refine ⟨⟨region, left, inner, r.trim⟩, words, ⟨rfl, rfl, rfl, fun hf => ?_, fun _ => ?_⟩, ?_, hw,
    hls⟩
  · refine head?_append_ne (t := r.rest) ?_
    rw [List.append_assoc, ← hs]
    exact hl hf
  · exact hw.getLast?_ne
  · simp [Delimited.source, ← hs]

/-- The lexemes behind an opening delimiter, as those of a region. -/
def IsArea (region : Region) (left : Bool) (s : List Char) (r : Scan s) : Prop :=
  ∃ source, region.opener ++ (markOf left ++ s) = source ++ r.rest ∧
    Area r.rest left source r.trim
      (⟨region.openKind, region.opener, region.opener ++ (markOf left ++ s), left⟩ :: r.lexemes)

theorem isArea_output (h : inside .output begin false s = .ok r)
    (hl : left = false → s.head? ≠ some '-') : IsArea .output left s r := by
  obtain ⟨d, words, ⟨hr, rfl, ht, hm⟩, hs, hw, hls⟩ := delimited_inside h hl
  refine ⟨d.source, hs, ?_⟩
  rw [hs, hls, ← ht, ← hr]
  exact .words hm hw fun htag => by rw [hr] at htag; cases htag

theorem verbatim?_eq_some {words : List Lexeme} {last : Lexeme} {v : Verbatim}
    (hl : last.kind ≠ .name) : verbatim? (words ++ [last]) = some v ↔ v.OpenedBy words := by
  refine ⟨keyword_of_verbatim? hl, fun h => ?_⟩
  obtain ⟨keyword, more, rfl, hk, ht, hm⟩ := h
  rw [List.cons_append, verbatim?, if_pos hk, ht]
  cases v with
  | raw => simp [hm rfl, Verbatim.keyword]
  | comment => simp [Verbatim.keyword]

theorem verbatimLexemes_eq {v : Verbatim} {trim : Bool} {body word rest : List Char}
    {e : Delimited} :
    verbatimLexemes v trim (body ++ (e.source ++ rest)) (e.found word rest) =
      v.lexemes (trimmed trim e.left body) body e word rest := by
  have hbody : (body ++ (e.source ++ rest)).take
      ((body ++ (e.source ++ rest)).length - (e.source ++ rest).length) = body := by
    rw [List.length_append, Nat.add_sub_cancel, List.take_left]
  rw [verbatimLexemes, Delimited.found]
  dsimp only
  rw [hbody]
  rfl

theorem isArea_tagRegion (h : tagRegion begin s = .ok r)
    (hl : left = false → s.head? ≠ some '-') : IsArea .tag left s r := by
  unfold tagRegion at h
  cases hi : inside .tag begin false s with
  | error e => rw [hi] at h; cases h
  | ok scan =>
    obtain ⟨d, words, ⟨hr, rfl, ht, hm⟩, hs, hw, hls⟩ := delimited_inside hi hl
    rw [hi] at h
    dsimp only [bind, Except.bind] at h
    split at h
    · rename_i hv
      cases h
      refine ⟨d.source, hs, ?_⟩
      rw [hls] at hv
      rw [hs, hls, ← ht, ← hr]
      refine .words hm hw fun _ v ho => ?_
      rw [(verbatim?_eq_some Token.Kind.noConfusion).2 ho] at hv
      cases hv
    · rename_i v hv
      split at h
      · cases h
      · rename_i t hend
        cases h
        obtain ⟨body, e, word, rest, hbody, he, hrest, rfl⟩ := findEnd?_eq_some.1 hend
        rw [hls] at hv
        rw [hrest] at hs hw
        refine ⟨d.source ++ (body ++ e.source), ?_, ?_⟩
        · rw [hs]
          simp [Delimited.found]
        · have ho := (verbatim?_eq_some Token.Kind.noConfusion).1 hv
          have harea := Area.verbatim hr hm hw ho hbody he (trims_trimmed d.right e.left body)
          rw [ht] at harea
          dsimp only
          rw [hs, hls, hrest, verbatimLexemes_eq]
          rw [Delimited.lexemes, hr, ht, List.cons_append] at harea
          exact harea

theorem isArea_noteRegion {rest : List Char} {hlen : rest.length < s.length}
    (h : noteRegion begin s rest hlen = .ok r) (hs : trimStart s = '#' :: rest)
    (hl : left = false → s.head? ≠ some '-') : IsArea .tag left s r := by
  obtain ⟨blank, hb, hblank⟩ : ∃ blank, Blank blank ∧ s = blank ++ '#' :: rest :=
    ⟨_, blank_takeWhile s, hs ▸ (trimStart_eq s).symm⟩
  unfold noteRegion at h
  split at h
  · cases h
  · rename_i closer m hf
    cases h
    obtain ⟨content, hrest, hc, hfree, hlast⟩ := findClosing?_eq_some.1 hf
    generalize hd : Delimited.mk .tag left (blank ++ '#' :: content) m.trim = d
    have hsource : Region.tag.opener ++ (markOf left ++ s) = d.source ++ m.rest := by
      simp [← hd, Delimited.source, Delimited.closing, hblank, hrest, hc]
    have hclosing : closer = d.closing ++ m.rest := by
      simp [← hd, Delimited.closing, hc]
    have hcontent : rest.take (rest.length - closer.length) = content := by
      rw [hrest, List.length_append, Nat.add_sub_cancel, List.take_left]
    have hm : d.Marked := by
      subst hd
      refine ⟨fun hf => head?_append_ne (t := m.rest) ?_, fun hf => ?_⟩
      · have hl := hl hf
        rw [hblank, hrest, hclosing] at hl
        simpa using hl
      · have hlast : ('#' :: content).getLast? ≠ some '-' :=
          getLast?_append_ne (s := ['#']) (by decide) (hlast hf)
        exact getLast?_append_of_ne_nil (by simp) hlast
    refine ⟨d.source, hsource, ?_⟩
    dsimp only
    rw [hsource, hcontent, closingLexeme, hrest, hclosing]
    subst hd
    exact .note rfl hm hb rfl hfree

/-- What is read behind an opening delimiter is a region. -/
theorem isArea_region (h : Lexer.region region begin s = .ok r)
    (hl : left = false → s.head? ≠ some '-') : IsArea region left s r := by
  unfold Lexer.region at h
  split at h
  · exact isArea_output h hl
  · split at h
    · rename_i hs
      exact isArea_noteRegion h hs hl
    · exact isArea_tagRegion h hl

end

/-- The lexemes of a source are those of its texts and regions. -/
theorem cut_lexemes {trim : Bool} {s : List Char} {ls : List Lexeme}
    (h : lexemes trim s = .ok ls) : Cut trim s ls := by
  unfold lexemes at h
  split at h
  · rename_i hn
    cases h
    rw [data_eq]
    exact .last (findOpening?_eq_none.1 hn) (trims_trimmed trim false s)
  · rename_i o ho
    cases hr : region o.region o.here o.mark.rest with
    | error e => rw [hr] at h; cases h
    | ok r =>
      have hl : r.rest.length < s.length :=
        Nat.lt_of_lt_of_le r.shorter (suffix_findOpening ho).2.length_le
      rw [hr] at h
      change (lexemes r.trim r.rest >>= _) = _ at h
      cases hm : lexemes r.trim r.rest with
      | error e => rw [hm] at h; cases h
      | ok more =>
        rw [hm] at h
        cases h
        obtain ⟨hs, hopen, hplain⟩ := findOpening?_eq_some.1 ho
        obtain ⟨hhere, hleft⟩ := opening?_eq_some.1 hopen
        obtain ⟨source, hsource, harea⟩ := isArea_region hr hleft
        rw [← hhere] at hsource harea
        rw [hsource] at hplain
        have hcut := Cut.region hplain (trims_trimmed trim o.mark.trim o.before) harea
          (cut_lexemes hm)
        rw [← hsource, ← hs, ← data_eq] at hcut
        exact hcut
termination_by s.length

end Lexer

end Liquid
