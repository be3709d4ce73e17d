import Liquid.Proofs.Reading.Digits
import Liquid.Proofs.Reading.Within
import Liquid.Token.Lexer

/-!
# Lexemes of a source

Every lexeme begins where the source goes on, and so does what is left behind a region.  The last
lexeme marks the end of the source, and no other.  A lexeme that is a number writes one.

* `Lexeme.Sound`: what is true of every lexeme before the last.
* `yields_region`: what stands behind an opening delimiter.
* `yields_lexemes`: the lexemes of a source, or the place of the mistake in it.
* `ending_tokenize`, `readable_tokenize`, `position_tokenize`: what this says of tokens.
-/
namespace Liquid

open Liquid.Text

/-- Whether a token of this kind is neither a number nor the mark of the end. -/
def Token.Kind.plain : Token.Kind → Bool
  | .integer | .float | .eof => false
  | _ => true

/-- A text is a number if a token of this kind has to be one. -/
def Token.Kind.Admits (text : List Char) : Token.Kind → Prop
  | .integer => (Number.readInt? text).isSome = true
  | .float => (Number.readFloat? text).isSome = true
  | _ => True

/-- A lexeme of the source `u` before its end. -/
structure Lexeme.Sound (u : List Char) (l : Lexeme) : Prop where
  begins : l.here <:+ u
  inner : l.kind ≠ .eof
  readable : l.kind.Admits l.text

theorem Lexeme.Sound.of_plain {u : List Char} {l : Lexeme} (h : l.kind.plain = true)
    (hs : l.here <:+ u) : l.Sound u where
  begins := hs
  inner he := by
    rw [he] at h
    cases h
  readable := by
    unfold Token.Kind.Admits
    split
    · rename_i he
      rw [he] at h
      cases h
    · rename_i he
      rw [he] at h
      cases h
    · trivial

namespace Lexer

/-- A result of which `P` is true, or a mistake in the source `u`. -/
def Yields (u : List Char) {α : Type} (P : α → Prop) : Except Slip α → Prop
  | .ok a => P a
  | .error e => e.here <:+ u

/-- A reader behind another. -/
theorem yields_bind {u : List Char} {α β : Type} {P : α → Prop} {Q : β → Prop}
    {r : Except Slip α} {f : α → Except Slip β} (h : Yields u P r)
    (hf : ∀ a, P a → Yields u Q (f a)) : Yields u Q (r >>= f) := by
  cases r with
  | ok a => exact hf a h
  | error e => exact h

/-! ## Delimiters -/

section

variable {s t u r : List Char} {m : Mark}

theorem suffix_dropPrefix {p : List Char} (h : dropPrefix? p s = some r) : r <:+ s :=
  ⟨p, (dropPrefix?_eq_some.1 h).symm⟩

theorem suffix_trimStart (s : List Char) : trimStart s <:+ s := List.dropWhile_suffix isBlank

theorem suffix_closing {region : Region} (h : closing? region s = some m) : m.rest <:+ s := by
  unfold closing? at h
  split at h
  · rename_i rest
    obtain ⟨r, hr, rfl⟩ := Option.map_eq_some_iff.1 h
    exact (suffix_dropPrefix hr).trans (List.suffix_cons _ rest)
  · obtain ⟨r, hr, rfl⟩ := Option.map_eq_some_iff.1 h
    exact suffix_dropPrefix hr

theorem suffix_opening {region : Region} (h : opening? s = some (region, m)) : m.rest <:+ s := by
  simp only [opening?, Option.or_eq_some_iff, Option.map_eq_some_iff] at h
  obtain ⟨rest, hr, h⟩ | ⟨-, rest, hr, h⟩ := h
  all_goals
    have hs := suffix_dropPrefix hr
    split at h <;> cases h
    · exact (List.suffix_cons _ _).trans hs
    · exact hs

theorem suffix_findOpening {o : Opening} (h : findOpening? s = some o) :
    o.here <:+ s ∧ o.mark.rest <:+ s := by
  induction s generalizing o with
  | nil => cases h
  | cons c rest ih =>
    rw [findOpening?] at h
    split at h
    · rename_i hm
      cases h
      exact ⟨List.suffix_refl _, suffix_opening hm⟩
    · obtain ⟨o', ho, rfl⟩ := Option.map_eq_some_iff.1 h
      have hc := List.suffix_cons c rest
      exact ⟨(ih ho).1.trans hc, (ih ho).2.trans hc⟩

theorem suffix_findClosing {region : Region} (h : findClosing? region s = some (t, m)) :
    t <:+ s ∧ m.rest <:+ s := by
  induction s with
  | nil => cases h
  | cons c rest ih =>
    rw [findClosing?] at h
    split at h
    · rename_i hm
      cases h
      exact ⟨List.suffix_refl _, suffix_closing hm⟩
    · have hc := List.suffix_cons c rest
      exact ⟨(ih h).1.trans hc, (ih h).2.trans hc⟩

theorem sound_closing (region : Region) (m : Mark) (hs : s <:+ u) :
    (closingLexeme region s m).Sound u :=
  .of_plain (by cases region <;> rfl) hs

theorem suffix_closeOf (s : List Char) (m : Mark) : closeOf s m <:+ s := by
  unfold closeOf
  split
  · exact List.drop_suffix 1 s
  · exact List.suffix_refl s

end

/-! ## Words -/

/-- A word of the source `u`, which goes on behind it. -/
def Word.Sound (u : List Char) {s : List Char} (w : Word s) : Prop :=
  w.lexeme.Sound u ∧ w.rest <:+ u

section

variable {c : Char} {s u rest sign here : List Char}

theorem suffix_nameTail (s : List Char) : (nameTail s).2 <:+ s := by
  unfold nameTail
  dsimp only
  split
  · rename_i rest h
    exact (List.suffix_cons '?' rest).trans (h ▸ List.drop_suffix _ s)
  · exact List.drop_suffix _ s

theorem isDigit_takeWhile (hc : isDigit c = true) (rest : List Char) :
    ∀ c' ∈ c :: rest.takeWhile isDigit, isDigit c' = true :=
  List.forall_mem_cons.2 ⟨hc, List.all_eq_true.1 List.all_takeWhile⟩

theorem fraction_eq {f r : List Char} (h : fraction? s = some (f, r)) :
    (∃ c ds, f = '.' :: c :: ds ∧ ∀ c' ∈ c :: ds, isDigit c' = true) ∧ r <:+ s := by
  unfold fraction? at h
  split at h
  · rename_i c rest
    split at h
    · rename_i hc
      cases h
      refine ⟨⟨c, _, rfl, isDigit_takeWhile hc rest⟩, ?_⟩
      exact (List.dropWhile_suffix isDigit).trans
        ((List.suffix_cons c rest).trans (List.suffix_cons _ _))
    · cases h
  · cases h

theorem sound_number {hl : rest.length < here.length} (hc : isDigit c = true)
    (hg : sign = [] ∨ sign = ['-']) (afterDot : Bool) (hh : here <:+ u) (hr : rest <:+ u) :
    (number c rest afterDot sign here hl).Sound u := by
  have hd := isDigit_takeWhile hc rest
  have hw : rest.dropWhile isDigit <:+ u := (List.dropWhile_suffix isDigit).trans hr
  have whole : (⟨.integer, sign ++ c :: rest.takeWhile isDigit, here, false⟩ : Lexeme).Sound u :=
    ⟨hh, by simp, Number.isSome_readInt_digits hg hd⟩
  unfold number
  dsimp only
  split
  · exact ⟨whole, hw⟩
  · split
    · rename_i hf
      obtain ⟨⟨f, fs, rfl, hfs⟩, hr⟩ := fraction_eq hf
      exact ⟨⟨hh, by simp, Number.isSome_readFloat_digits hg hd hfs⟩, hr.trans hw⟩
    · exact ⟨whole, hw⟩

theorem sound_number? {afterDot : Bool} {w : Word s} (h : number? afterDot s = some w)
    (hs : s <:+ u) : w.Sound u := by
  cases s with
  | nil => cases h
  | cons c rest =>
    have hr := (List.suffix_cons c rest).trans hs
    unfold number? at h
    dsimp only at h
    split at h
    · rename_i hc
      cases h
      exact sound_number hc (.inl rfl) afterDot hs hr
    · split at h
      · rename_i hm
        obtain rfl : c = '-' := of_decide_eq_true (Bool.and_eq_true_iff.1 hm).1
        split at h
        · rename_i d rest
          split at h
          · rename_i hd
            cases h
            exact sound_number hd (.inr rfl) afterDot hs ((List.suffix_cons d rest).trans hr)
          · cases h
        · cases h
      · cases h

theorem sound_name {w : Word s} (h : name? s = some w) (hs : s <:+ u) : w.Sound u := by
  cases s with
  | nil => cases h
  | cons c rest =>
    unfold name? at h
    dsimp only at h
    split at h
    · cases h
      exact ⟨.of_plain rfl hs, (suffix_nameTail rest).trans ((List.suffix_cons c rest).trans hs)⟩
    · cases h

theorem sound_string {w : Word (c :: rest)} (h : string? c rest = some w) (hs : c :: rest <:+ u) :
    w.Sound u := by
  unfold string? at h
  split at h
  · rename_i content rest' hc
    cases h
    have hr : rest' <:+ rest := ⟨content ++ [c], (splitFirst?_eq_some hc).symm⟩
    exact ⟨.of_plain rfl hs, hr.trans ((List.suffix_cons c rest).trans hs)⟩
  · cases h

theorem sound_operator {more : List (String × Token.Kind)} (hm : ∀ o ∈ more, o.2.plain = true)
    {w : Word s} (h : operator? s more = some w) (hs : s <:+ u) : w.Sound u := by
  induction more with
  | nil => cases h
  | cons o more ih =>
    have hm := List.forall_mem_cons.1 hm
    unfold operator? at h
    split at h
    · rename_i hd
      split at h
      · cases h
        exact ⟨.of_plain hm.1 hs, (suffix_dropPrefix hd).trans hs⟩
      · exact ih hm.2 h
    · exact ih hm.2 h

theorem plain_operators : ∀ o ∈ operators, o.2.plain = true := by decide

theorem yields_word (afterDot : Bool) (hs : c :: rest <:+ u) :
    Yields u (Word.Sound u) (word afterDot c rest) := by
  unfold word
  split
  · split
    · rename_i h
      exact sound_string h hs
    · exact hs
  · split
    · rename_i h
      exact sound_number? h hs
    · split
      · rename_i h
        exact sound_name h hs
      · split
        · rename_i h
          exact sound_operator plain_operators h hs
        · exact hs

end

/-! ## Regions -/

/-- A region of the source `u`, which goes on behind it. -/
def Scan.Sound (u : List Char) {s : List Char} (r : Scan s) : Prop :=
  (∀ l ∈ r.lexemes, l.Sound u) ∧ r.rest <:+ u

theorem yields_inside {u begin : List Char} (region : Region) (hb : begin <:+ u)
    (afterDot : Bool) (s : List Char) (hs : s <:+ u) :
    Yields u (Scan.Sound u) (inside region begin afterDot s) := by
  unfold inside
  split
  · exact hb
  · rename_i c rest ht
    have hc : c :: rest <:+ u := ht ▸ (suffix_trimStart s).trans hs
    dsimp only
    split
    · rename_i m hm
      exact ⟨List.forall_mem_singleton.2 (sound_closing region m hc), (suffix_closing hm).trans hc⟩
    · refine yields_bind (yields_word afterDot hc) fun w hw => ?_
      have hl : w.rest.length < s.length :=
        Nat.lt_of_lt_of_le w.shorter (ht ▸ trimStart_length_le s)
      refine yields_bind (yields_inside region hb (w.lexeme.kind == .dot) w.rest hw.2)
        fun more hmore => ?_
      exact ⟨List.forall_mem_cons.2 ⟨hw.1, hmore.1⟩, hmore.2⟩
termination_by s.length

/-! ## Verbatim blocks -/

/-- A tag that stands in the source `u`. -/
structure VerbatimTag.Inside (u : List Char) (t : VerbatimTag) : Prop where
  here : t.here <:+ u
  word : t.word <:+ u
  close : t.close <:+ u
  rest : t.rest <:+ u

section

variable {s u : List Char} {t : VerbatimTag}

theorem VerbatimTag.Inside.mono (h : t.Inside s) (hs : s <:+ u) : t.Inside u :=
  ⟨h.here.trans hs, h.word.trans hs, h.close.trans hs, h.rest.trans hs⟩

theorem suffix_tagWord {m : Mark} (h : tagWord? s = some m) : m.rest <:+ s := by
  unfold tagWord? at h
  split at h
  · rename_i rest hd
    cases h
    exact (suffix_trimStart rest).trans ((List.suffix_cons _ rest).trans (suffix_dropPrefix hd))
  · rename_i rest _ hd
    cases h
    exact (suffix_trimStart rest).trans (suffix_dropPrefix hd)
  · cases h

theorem inside_endRaw (h : endRaw? s = some t) : t.Inside s := by
  simp only [endRaw?, Option.bind_eq_bind, Option.bind_eq_some_iff, Option.pure_def,
    Option.some.injEq] at h
  obtain ⟨m, hm, after, ha, c, hc, rfl⟩ := h
  have hw : m.rest <:+ s := suffix_tagWord hm
  have hcloser : trimStart after <:+ s :=
    (suffix_trimStart after).trans ((suffix_dropPrefix ha).trans hw)
  exact ⟨List.suffix_refl s, hw, (suffix_closeOf _ c).trans hcloser,
    (suffix_closing hc).trans hcloser⟩

theorem inside_commentTag {closes : Bool} (h : commentTag? s = some (closes, t)) : t.Inside s := by
  simp only [commentTag?, Option.bind_eq_bind, Option.bind_eq_some_iff, Prod.exists] at h
  obtain ⟨m, hm, closes, after, ha, h⟩ := h
  have hw : m.rest <:+ s := suffix_tagWord hm
  have hafter : after <:+ s := by
    simp only [Option.or_eq_some_iff, Option.map_eq_some_iff, Prod.mk.injEq] at ha
    rcases ha with ⟨x, hx, -, rfl⟩ | ⟨-, x, hx, -, rfl⟩
    · exact (suffix_dropPrefix hx).trans hw
    · exact (suffix_dropPrefix hx).trans hw
  split at h
  · simp only [Option.bind_eq_some_iff, Prod.exists, Option.pure_def, Option.some.injEq,
      Prod.mk.injEq] at h
    obtain ⟨closer, c, hc, -, rfl⟩ := h
    have hcloser := suffix_findClosing hc
    exact ⟨List.suffix_refl s, hw, (suffix_closeOf closer c).trans (hcloser.1.trans hafter),
      hcloser.2.trans hafter⟩
  · cases h

theorem inside_findEndRaw (h : findEndRaw? s = some t) : t.Inside s := by
  induction s with
  | nil => cases h
  | cons c rest ih =>
    rcases Option.or_eq_some_iff.1 h with h | ⟨-, h⟩
    · exact inside_endRaw h
    · exact (ih h).mono (List.suffix_cons c rest)

theorem inside_findEndComment {depth : Nat} (h : findEndComment? depth s = some t) :
    t.Inside s := by
  fun_induction findEndComment? depth s with
  | case1 => cases h
  | case2 c rest t' ht =>
    cases h
    exact inside_commentTag ht
  | case3 c rest t' ht d ih => exact (ih h).mono (inside_commentTag ht).rest
  | case4 d c rest t' ht ih => exact (ih h).mono (inside_commentTag ht).rest
  | case5 d c rest ht ih => exact (ih h).mono (List.suffix_cons c rest)

theorem inside_findEnd {v : Verbatim} (h : v.findEnd? s = some t) : t.Inside s := by
  cases v with
  | raw => exact inside_findEndRaw h
  | comment => exact inside_findEndComment h

theorem sound_verbatim (v : Verbatim) (trim : Bool) (hs : s <:+ u) (ht : t.Inside u) :
    ∀ l ∈ verbatimLexemes v trim s t, l.Sound u :=
  List.forall_mem_cons.2 ⟨.of_plain rfl hs, List.forall_mem_cons.2 ⟨.of_plain rfl ht.here,
    List.forall_mem_cons.2 ⟨.of_plain rfl ht.word,
      List.forall_mem_singleton.2 (.of_plain rfl ht.close)⟩⟩⟩

/-! ## Regions and text -/

variable {begin : List Char}

theorem yields_tagRegion (hb : begin <:+ u) (hs : s <:+ u) :
    Yields u (Scan.Sound u) (tagRegion begin s) := by
  refine yields_bind (yields_inside .tag hb false s hs) fun r hr => ?_
  split
  · exact hr
  · rename_i v _
    split
    · exact hb
    · rename_i t ht
      have ht : t.Inside u := (inside_findEnd ht).mono hr.2
      exact ⟨List.forall_mem_append.2 ⟨hr.1, sound_verbatim v r.trim hr.2 ht⟩, ht.rest⟩

theorem yields_noteRegion {rest : List Char} {hl : rest.length < s.length} (hb : begin <:+ u)
    (hr : '#' :: rest <:+ u) : Yields u (Scan.Sound u) (noteRegion begin s rest hl) := by
  have hrest : rest <:+ u := (List.suffix_cons '#' rest).trans hr
  unfold noteRegion
  split
  · exact hb
  · rename_i closer m hm
    have hc := suffix_findClosing hm
    refine ⟨List.forall_mem_cons.2 ⟨.of_plain rfl hr, List.forall_mem_cons.2
      ⟨.of_plain rfl hrest, ?_⟩⟩, hc.2.trans hrest⟩
    exact List.forall_mem_singleton.2 (sound_closing .tag m (hc.1.trans hrest))

theorem yields_region (r : Region) (hb : begin <:+ u) (hs : s <:+ u) :
    Yields u (Scan.Sound u) (region r begin s) := by
  unfold region
  split
  · exact yields_inside .output hb false s hs
  · split
    · rename_i rest ht
      exact yields_noteRegion hb (ht ▸ (suffix_trimStart s).trans hs)
    · exact yields_tagRegion hb hs

theorem sound_data (left right : Bool) (text : List Char) (hs : s <:+ u) :
    ∀ l ∈ data left right text s, l.Sound u := by
  unfold data
  split
  · exact fun _ h => absurd h List.not_mem_nil
  · exact List.forall_mem_singleton.2 (.of_plain rfl hs)

/-- All lexemes of the source `u`. -/
def Complete (u : List Char) (ls : List Lexeme) : Prop :=
  ∃ before, ls = before ++ [⟨.eof, [], [], false⟩] ∧ ∀ l ∈ before, l.Sound u

theorem yields_lexemes (trim : Bool) (s : List Char) (hs : s <:+ u) :
    Yields u (Complete u) (lexemes trim s) := by
  unfold lexemes
  split
  · exact ⟨_, rfl, sound_data trim false s hs⟩
  · rename_i o ho
    have hopen := suffix_findOpening ho
    have ho : o.here <:+ u := hopen.1.trans hs
    refine yields_bind (yields_region o.region ho (hopen.2.trans hs)) fun r hr => ?_
    have hl : r.rest.length < s.length :=
      Nat.lt_of_lt_of_le r.shorter hopen.2.length_le
    refine yields_bind (yields_lexemes r.trim r.rest hr.2) ?_
    rintro more ⟨before, rfl, hbefore⟩
    have hopener : (⟨o.region.openKind, o.region.opener, o.here, o.mark.trim⟩ : Lexeme).Sound u :=
      .of_plain (by cases o.region <;> rfl) ho
    refine ⟨data trim o.mark.trim o.before s ++ ⟨o.region.openKind, o.region.opener, o.here,
      o.mark.trim⟩ :: (r.lexemes ++ before), ?_, ?_⟩
    · rw [List.append_assoc, List.cons_append, List.append_assoc]
    · exact List.forall_mem_append.2 ⟨sound_data _ _ _ hs,
        List.forall_mem_cons.2 ⟨hopener, List.forall_mem_append.2 ⟨hr.1, hbefore⟩⟩⟩
termination_by s.length

end

end Lexer

/-! ## Tokens -/

/-- A place that stands behind a beginning of the source. -/
def Position.In (source : List Char) (p : Position) : Prop :=
  ∃ before, before <+: source ∧ p = .after before

theorem Position.in_of_suffix {source here : List Char} (h : here <:+ source) :
    (Position.of source here).In source := by
  obtain ⟨before, rfl⟩ := h
  refine ⟨before, List.prefix_append before here, ?_⟩
  rw [Position.of, List.length_append, Nat.add_sub_cancel, List.take_left]

section

variable {u : List Char} {ls : List Lexeme}

theorem Lexer.Complete.ending (h : Complete u ls) :
    Ending (ls.map (Lexeme.toToken (Position.places u))) := by
  obtain ⟨before, rfl, h⟩ := h
  induction before with
  | nil => exact .last rfl
  | cons l before ih =>
    have h := List.forall_mem_cons.1 h
    exact .cons h.1.inner (ih h.2)

/-- Where a lexeme begins, and that it is a number if it has to be one. -/
theorem Lexer.Complete.forall_mem (h : Complete u ls) :
    ∀ l ∈ ls, l.here <:+ u ∧ l.kind.Admits l.text := by
  obtain ⟨before, rfl, h⟩ := h
  refine List.forall_mem_append.2 ⟨fun l hl => ⟨(h l hl).begins, (h l hl).readable⟩, ?_⟩
  exact List.forall_mem_singleton.2 ⟨List.nil_suffix, trivial⟩

end

variable {source : String} {tokens : List Token}

theorem lexemes_of_tokenize (h : tokenize source = .ok tokens) :
    ∃ ls, Lexer.lexemes false source.toList = .ok ls ∧
      tokens = ls.map (Lexeme.toToken (Position.places source.toList)) := by
  unfold tokenize at h
  dsimp only at h
  split at h
  · rename_i ls hls
    cases h
    exact ⟨ls, hls, rfl⟩
  · cases h

theorem Lexer.complete_of_lexemes {s : List Char} {ls : List Lexeme} {trim : Bool}
    (h : lexemes trim s = .ok ls) : Complete s ls := by
  have hl := yields_lexemes trim s (List.suffix_refl s)
  rwa [h] at hl

theorem complete_of_tokenize (h : tokenize source = .ok tokens) :
    ∃ ls, Lexer.Complete source.toList ls ∧
      tokens = ls.map (Lexeme.toToken (Position.places source.toList)) := by
  obtain ⟨ls, hls, he⟩ := lexemes_of_tokenize h
  exact ⟨ls, Lexer.complete_of_lexemes hls, he⟩

/-- The last token of a source marks its end, and no other. -/
theorem ending_tokenize (h : tokenize source = .ok tokens) : Ending tokens := by
  obtain ⟨ls, hls, rfl⟩ := complete_of_tokenize h
  exact hls.ending

/-- A token that has to be a number writes one. -/
theorem readable_tokenize (h : tokenize source = .ok tokens) :
    ∀ t ∈ tokens, t.kind.Admits t.text.toList := by
  obtain ⟨ls, hls, rfl⟩ := complete_of_tokenize h
  refine List.forall_mem_map.2 fun l hl => ?_
  change l.kind.Admits (String.ofList l.text).toList
  rw [String.toList_ofList]
  exact (hls.forall_mem l hl).2

theorem position_tokenize (h : tokenize source = .ok tokens) :
    ∀ t ∈ tokens, t.position.In source.toList := by
  obtain ⟨ls, hls, rfl⟩ := complete_of_tokenize h
  refine List.forall_mem_map.2 fun l hl => ?_
  rw [Lexeme.position_toToken]
  exact Position.in_of_suffix (hls.forall_mem l hl).1

/-- A source that does not fall into tokens has a mistake at one of its places. -/
theorem position_of_tokenize_error {e : Misplaced} (h : tokenize source = .error e) :
    e.position.In source.toList := by
  have hl := Lexer.yields_lexemes false source.toList (List.suffix_refl _)
  unfold tokenize at h
  dsimp only at h
  split at h
  · cases h
  · rename_i slip hslip
    rw [hslip] at hl
    cases h
    exact Position.in_of_suffix hl

end Liquid
