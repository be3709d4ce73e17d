import Liquid.Proofs.Reading.Trimming

/-!
# Every cut of a source is read

Texts and regions that follow the rules of `Cut` are read as what they are, so a source has at most
one cut, and the sources that have one are those that fall into tokens.

* `Spelling.unique`: what is written is one word only.
* `Lexer.word_complete`: the longest word that is written somewhere is read there.
* `Lexer.scans_area`, `Lexer.lexemes_cut`: a region and a source are read as what they are.
* `tokenize_eq_ok`: the tokens of a source are those of its one cut.
-/
namespace Liquid

open Liquid.Text

/-! ## Words -/

theorem Spelling.chars_eq_cons (v : Spelling) : ∃ c cs, v.chars = c :: cs := by
  obtain ⟨⟨c, cs, h, -⟩, -⟩ := Lexer.opens_spelling v []
  exact ⟨c, cs, by simpa using h⟩

/-- The characters tell the word: both are what is read in front of a space. -/
theorem Spelling.unique {v w : Spelling} (h : v.chars = w.chars) :
    v.kind = w.kind ∧ v.text = w.text := by
  obtain ⟨c, cs, hv⟩ := v.chars_eq_cons
  have follows (u : Spelling) : false = true → u.FollowsPoint := Bool.noConfusion
  obtain ⟨r, hr, hl, -⟩ := Lexer.gets_spelling v (follows v) hv []
  obtain ⟨r', hr', hl', -⟩ := Lexer.gets_spelling w (follows w) (h ▸ hv) []
  rw [hr] at hr'
  cases hr'
  rw [hl] at hl'
  simp only [Lexeme.mk.injEq, String.toList_inj] at hl'
  exact ⟨hl'.1, hl'.2.1⟩

namespace Lexer

section

variable {c : Char} {s rest begin : List Char} {region : Region} {point : Bool}

theorem word_isDigit {digits sign : List Char} (hg : sign = [] ∨ sign = ['-']) (hn : digits ≠ [])
    (hd : ∀ d ∈ digits, isDigit d = true) (hp : point = true → sign = [])
    (hs : sign ++ digits <+: c :: rest) : ∃ w, word point c rest = .ok w := by
  obtain ⟨d, ds, rfl⟩ := List.exists_cons_of_ne_nil hn
  have hd := hd d (by simp)
  rcases hg with rfl | rfl
  · obtain ⟨rfl, -⟩ := List.cons_prefix_cons.1 hs
    exact ⟨_, word_of_number (not_quote_of_isDigit hd) (number?_of_digit hd)⟩
  · obtain ⟨hc, hmore⟩ := List.cons_prefix_cons.1 hs
    subst hc
    cases point with
    | true => exact absurd (hp rfl) (by simp)
    | false =>
      cases rest with
      | nil => simp at hmore
      | cons e rest =>
        obtain ⟨rfl, -⟩ := List.cons_prefix_cons.1 hmore
        exact ⟨_, word_of_number (by decide) (number?_of_minus hd)⟩

/-- Where a word is written, some word is read. -/
theorem word_isOk (v : Spelling) (hp : point = true → v.FollowsPoint)
    (hs : v.chars <+: c :: rest) : ∃ w, word point c rest = .ok w := by
  obtain ⟨kind, text, chars, hv⟩ := v
  cases hv with
  | name hb =>
    obtain ⟨rfl, -⟩ := List.cons_prefix_cons.1 hs
    obtain ⟨w, hw, -⟩ := gets_nameTail hb point rest
    exact ⟨w, hw⟩
  | @string quote content hq hn =>
    obtain ⟨t, ht⟩ := hs
    obtain ⟨rfl, ht⟩ := List.cons.inj ht
    obtain rfl : content ++ quote :: t = rest := by simpa using ht
    have hw : Gets (word point quote (content ++ quote :: t)) .string content t :=
      gets_string hq hn point
    obtain ⟨w, hw, -⟩ := hw
    exact ⟨w, hw⟩
  | @integer sign digits hg hn hd =>
    refine word_isDigit hg hn hd (fun ht => ?_) hs
    rcases hg with rfl | rfl
    · rfl
    · exact absurd ((hp ht).2 rfl '-' (by simp)) (by decide)
  | float hg hn hd =>
    exact word_isDigit hg hn hd (fun ht => absurd rfl (hp ht).1) ((List.prefix_append _ _).trans hs)
  | operator ho =>
    obtain ⟨w, hw, -⟩ := word_operator ho hs point
    exact ⟨w, hw⟩

/-- The longest word that is written somewhere is read there. -/
theorem word_complete {v : Spelling} {more : List Char} (ht : Takes point v more)
    (hs : c :: rest = v.chars ++ more) :
    Gets (word point c rest) v.kind v.text.toList more := by
  obtain ⟨w, hw⟩ := word_isOk v ht.follows ⟨more, hs.symm⟩
  obtain ⟨u, hl, hu, htu⟩ := word_eq_ok hw
  have he : u.chars ++ w.rest = v.chars ++ more := hu.symm.trans hs
  have hle := ht.longest u htu.follows ⟨w.rest, he⟩
  have hge := htu.longest v ht.follows ⟨more, he.symm⟩
  obtain ⟨hchars, hrest⟩ := List.append_inj he (Nat.le_antisymm hle hge)
  obtain ⟨hk, htext⟩ := Spelling.unique hchars
  exact ⟨w, hw, by rw [hl, hk, htext], hrest⟩

/-! ## Regions -/

theorem scans_word {v : Spelling} {blank more : List Char} {ls : List Lexeme} {trim : Bool}
    (hb : Blank blank) (ht : Takes point v more)
    (hs : Scans (inside region begin (v.kind == .dot) more) ls trim rest) :
    Scans (inside region begin point (blank ++ (v.chars ++ more)))
      (⟨v.kind, v.text.toList, v.chars ++ more, false⟩ :: ls) trim rest := by
  obtain ⟨⟨c, cs, hc, hcb, -⟩, hclose⟩ := opens_spelling v more
  have hclose := hclose region
  have htrim : trimStart (blank ++ (v.chars ++ more)) = v.chars ++ more :=
    trimStart_append hb (by simpa [hc] using hcb)
  obtain ⟨⟨l, r, hr⟩, hv, rfl, rfl⟩ := word_complete ht hc.symm
  obtain ⟨m, hm, rfl, rfl, rfl⟩ := hs
  rw [hc] at htrim hclose ⊢
  unfold inside
  split
  · rename_i he
    rw [htrim] at he
    cases he
  · rename_i d ds he
    rw [htrim] at he
    obtain ⟨rfl, rfl⟩ := List.cons.inj he
    dsimp only
    split
    · rename_i m' hm'
      rw [hclose] at hm'
      cases hm'
    · rw [hv]
      change Scans (do
        let more ← inside region begin (v.kind == .dot) r
        _) _ _ _
      rw [hm]
      exact ⟨_, rfl, rfl, rfl, rfl⟩

/-- A region with words is read as what it is. -/
theorem scans_intoWords (begin : List Char) {d : Delimited} {inner : List Char}
    {words : List Lexeme}
    (h : IntoWords (d.closing ++ rest) point inner words) :
    Scans (inside d.region begin point (inner ++ (d.closing ++ rest)))
      (words ++ [⟨d.region.closeKind, d.region.closer, d.closing ++ rest, d.right⟩])
      d.right rest := by
  induction h with
  | nil hb => exact scans_closing hb
  | cons hb ht _ ih =>
    rw [List.append_assoc, List.append_assoc]
    exact scans_word hb ht ih

/-- A region with words begins with no note. -/
theorem trimStart_intoWords {d : Delimited} {inner : List Char} {words : List Lexeme}
    (h : IntoWords (d.closing ++ rest) point inner words) (t : List Char) :
    trimStart (inner ++ (d.closing ++ rest)) ≠ '#' :: t := by
  intro he
  cases h with
  | nil hb =>
    obtain ⟨c, cs, hc, hcb, hcw⟩ := closing_eq_cons d
    have ht : trimStart (inner ++ (d.closing ++ rest)) = d.closing ++ rest :=
      trimStart_append hb (by simpa [hc] using hcb)
    rw [ht, Delimited.closing] at he
    cases hr : d.right <;> cases hg : d.region <;> simp [hr, hg, markOf, Region.closer] at he
  | @cons _ blank s w _ hb _ _ =>
    obtain ⟨⟨c, cs, hc, hcb, hn⟩, -⟩ := opens_spelling w (s ++ (d.closing ++ rest))
    have ht : trimStart (blank ++ (w.chars ++ (s ++ (d.closing ++ rest)))) = c :: cs := by
      rw [trimStart_append hb (by simpa [hc] using hcb), hc]
    rw [List.append_assoc, List.append_assoc, ht] at he
    exact hn (List.cons.inj he).1

theorem region_of_intoWords {d : Delimited} {inner : List Char} {words : List Lexeme}
    (h : IntoWords (d.closing ++ rest) false inner words) (hr : d.region = .tag) :
    Lexer.region d.region begin (inner ++ (d.closing ++ rest)) =
      tagRegion begin (inner ++ (d.closing ++ rest)) := by
  rw [hr]
  unfold Lexer.region
  dsimp only
  split
  · rename_i he
    exact absurd he (trimStart_intoWords h _)
  · rfl

theorem scans_tagRegion {words : List Lexeme} {last : Lexeme} {right : Bool}
    (h : Scans (inside .tag begin false s) (words ++ [last]) right rest) (hl : last.kind ≠ .name)
    (ho : ∀ v : Verbatim, ¬ v.OpenedBy words) :
    Scans (tagRegion begin s) (words ++ [last]) right rest := by
  obtain ⟨m, hm, hls, hright, hrest⟩ := h
  have hv : verbatim? m.lexemes = none := by
    rw [hls]
    exact Option.eq_none_iff_forall_not_mem.2 fun v hv => ho v ((verbatim?_eq_some hl).1 hv)
  unfold tagRegion
  rw [hm]
  dsimp only [bind, Except.bind]
  rw [hv]
  exact ⟨m, rfl, hls, hright, hrest⟩

/-- A tag that begins a verbatim block goes up to the end of the block. -/
theorem scans_found {words : List Lexeme} {last : Lexeme} {right : Bool} {v : Verbatim}
    {body : List Char} {t : VerbatimTag}
    (h : Scans (inside .tag begin false s) (words ++ [last]) right body) (hl : last.kind ≠ .name)
    (ho : v.OpenedBy words) (he : v.findEnd? body = some t) :
    Scans (tagRegion begin s) (words ++ [last] ++ verbatimLexemes v right body t) t.trimRight
      t.rest := by
  obtain ⟨m, hm, hls, rfl, rfl⟩ := h
  have hv : verbatim? m.lexemes = some v := by
    rw [hls]
    exact (verbatim?_eq_some hl).2 ho
  unfold tagRegion
  rw [hm]
  dsimp only [bind, Except.bind]
  rw [hv]
  dsimp only
  split
  · rename_i hn
    rw [he] at hn
    cases hn
  · rename_i t' ht
    rw [he] at ht
    cases ht
    exact ⟨_, rfl, by rw [hls], rfl, rfl⟩

/-- A verbatim block without end. -/
theorem tagRegion_unclosed {words : List Lexeme} {last : Lexeme} {right : Bool} {v : Verbatim}
    {body : List Char}
    (h : Scans (inside .tag begin false s) (words ++ [last]) right body) (hl : last.kind ≠ .name)
    (ho : v.OpenedBy words) (he : v.findEnd? body = none) :
    tagRegion begin s = .error ⟨v.unclosed, begin⟩ := by
  obtain ⟨m, hm, hls, -, rfl⟩ := h
  have hv : verbatim? m.lexemes = some v := by
    rw [hls]
    exact (verbatim?_eq_some hl).2 ho
  unfold tagRegion
  rw [hm]
  dsimp only [bind, Except.bind]
  rw [hv]
  dsimp only
  split
  · rfl
  · rename_i ht
    rw [he] at ht
    cases ht

theorem scans_verbatim {words : List Lexeme} {last : Lexeme} {right : Bool} {v : Verbatim}
    {body word : List Char} {e : Delimited}
    (h : Scans (inside .tag begin false s) (words ++ [last]) right (body ++ (e.source ++ rest)))
    (hl : last.kind ≠ .name) (ho : v.OpenedBy words) (hb : v.Holds body (e.source ++ rest))
    (he : Tagged v.End e word) :
    Scans (tagRegion begin s)
      (words ++ [last] ++ v.lexemes (trimmed right e.left body) body e word rest) e.right rest := by
  have hend := findEnd?_eq_some.2 ⟨body, e, word, rest, hb, he, rfl, rfl⟩
  rw [← verbatimLexemes_eq]
  exact scans_found h hl ho hend

theorem scans_note (begin rest : List Char) {d : Delimited} {blank content : List Char}
    (hr : d.region = .tag) (hm : d.Marked) (hb : Blank blank)
    (hi : d.inside = blank ++ '#' :: content) (hfree : ¬ Region.tag.closer <:+: content) :
    Scans (Lexer.region .tag begin (d.inside ++ (d.closing ++ rest)))
      [⟨.name, ['#'], '#' :: (content ++ (d.closing ++ rest)), false⟩,
        ⟨.raw, trim content, content ++ (d.closing ++ rest), false⟩,
        ⟨d.region.closeKind, d.region.closer, d.closing ++ rest, d.right⟩] d.right rest := by
  have hinside := hi.trans (List.append_cons blank '#' content)
  have hfind := findClosing?_closing hr hm hinside hfree rest
  have ht : trimStart (d.inside ++ (d.closing ++ rest)) =
      '#' :: (content ++ (d.closing ++ rest)) := by
    rw [hi, List.append_assoc]
    exact trimStart_append hb (by simp; decide)
  have hcontent : (content ++ (d.closing ++ rest)).take
      ((content ++ (d.closing ++ rest)).length - (d.closing ++ rest).length) = content := by
    rw [List.length_append, Nat.add_sub_cancel, List.take_left]
  unfold Lexer.region
  dsimp only
  split
  · rename_i more he
    rw [ht] at he
    cases he
    unfold noteRegion
    split
    · rename_i hn
      rw [hfind] at hn
      cases hn
    · rename_i closer m hm
      rw [hfind] at hm
      cases hm
      refine ⟨_, rfl, ?_, rfl, rfl⟩
      dsimp only
      rw [hcontent, closingLexeme, hr]
  · rename_i hn
    exact absurd ht (hn _)

/-- What follows the opening delimiter of a region is read as the region. -/
theorem scans_area {left right : Bool} {source : List Char} {ls : List Lexeme}
    (h : Area rest left source right ls) :
    ∃ (region : Region) (s : List Char) (inner : List Lexeme),
      source ++ rest = region.opener ++ (markOf left ++ s) ∧
      (left = false → s.head? ≠ some '-') ∧
      ls = ⟨region.openKind, region.opener, source ++ rest, left⟩ :: inner ∧
      ∀ begin, Scans (Lexer.region region begin s) inner right rest := by
  cases h with
  | @words d words hm hw ho =>
    refine ⟨d.region, d.inside ++ (d.closing ++ rest), _, source_append d rest,
      fun hf => head?_of_marked hm hf rest, rfl, fun begin => ?_⟩
    have hs := scans_intoWords begin hw
    cases hr : d.region with
    | output =>
      rw [hr] at hs
      exact hs
    | tag =>
      rw [← hr, region_of_intoWords hw hr]
      rw [hr] at hs ⊢
      exact scans_tagRegion hs Token.Kind.noConfusion (ho hr)
  | @note d blank content hr hm hb hi hfree =>
    refine ⟨d.region, d.inside ++ (d.closing ++ rest), _, source_append d rest,
      fun hf => head?_of_marked hm hf rest, rfl, fun begin => ?_⟩
    rw [hr]
    have hs := scans_note begin rest hr hm hb hi hfree
    rw [hr] at hs
    exact hs
  | @verbatim v d e words body word kept hr hm hw ho hb he ht =>
    refine ⟨d.region, d.inside ++ (d.closing ++ (body ++ (e.source ++ rest))),
      words ++ [⟨d.region.closeKind, d.region.closer, d.closing ++ (body ++ (e.source ++ rest)),
        d.right⟩] ++ v.lexemes kept body e word rest, ?_,
      fun hf => head?_of_marked hm hf _, ?_, fun begin => ?_⟩
    · rw [← source_append]
      simp
    · simp [Delimited.lexemes]
    · have hs := scans_intoWords begin hw
      rw [region_of_intoWords hw hr, ht.eq_trimmed]
      rw [hr] at hs ⊢
      exact scans_verbatim hs Token.Kind.noConfusion ho hb he

end

/-- A source that has a cut is read as it. -/
theorem lexemes_cut {trim : Bool} {s : List Char} {ls : List Lexeme} (h : Cut trim s ls) :
    lexemes trim s = .ok ls := by
  induction h with
  | @last trim text kept hw ht =>
    unfold lexemes
    split
    · rw [data_eq, ← ht.eq_trimmed]
      rfl
    · rename_i hn
      rw [findOpening?_eq_none.2 hw] at hn
      cases hn
  | @region trim left right text kept source rest ls more hw ht harea _ ih =>
    obtain ⟨region, s, inner, hs, hl, rfl, hscans⟩ := scans_area harea
    have hopen : findOpening? (text ++ (source ++ rest)) =
        some ⟨text, region, source ++ rest, ⟨left, s⟩⟩ :=
      findOpening?_eq_some.2 ⟨rfl, opening?_eq_some.2 ⟨hs, hl⟩, hw⟩
    rw [lexemes_of_scans hopen (hscans (source ++ rest)), ih, data_eq, ← ht.eq_trimmed]
    rfl

end Lexer

/-- The tokens of a source that has a cut. -/
theorem tokenize_of_cut {source : String} {ls : List Lexeme} (h : Cut false source.toList ls) :
    tokenize source = .ok (ls.map (Lexeme.toToken (Position.places source.toList))) := by
  unfold tokenize
  dsimp only
  rw [Lexer.lexemes_cut h]

/-- The tokens of a source are those of its texts and regions, and a source falls into tokens if it
has a cut. -/
theorem tokenize_eq_ok {source : String} {tokens : List Token} :
    tokenize source = .ok tokens ↔ ∃ ls, Cut false source.toList ls ∧
      tokens = ls.map (Lexeme.toToken (Position.places source.toList)) := by
  constructor
  · intro h
    unfold tokenize at h
    dsimp only at h
    cases hl : Lexer.lexemes false source.toList with
    | error e => rw [hl] at h; cases h
    | ok ls =>
      rw [hl] at h
      cases h
      exact ⟨ls, Lexer.cut_lexemes hl, rfl⟩
  · intro h
    obtain ⟨ls, hcut, rfl⟩ := h
    exact tokenize_of_cut hcut

end Liquid
