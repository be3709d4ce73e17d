import Liquid.Proofs.Reading.Lexemes
import Liquid.Proofs.Reading.Taken

/-!
# How the tokens of a source are laid out

The tokens of a source are texts, outputs and tags, one behind the other.  What stands between two
delimiters are words, whose kinds no delimiter has, and every region has its closing delimiter.  A
comment and a raw block come whole, with their content as one token and their end tag.

**Layout.** A reader that is given only the tokens cannot tell that a region has an end or that the
content of a comment is there.  For the tokens of a source both are known beforehand.

* `Layout`: texts, outputs, tags, verbatim blocks and notes up to the end.
* `words_inside`: what stands in a region.
* `layout_tokenize`: the tokens of a source are laid out like this.
-/
namespace Liquid

open Liquid.Text

/-- Delimiters of a tag around words. -/
structure Delimits (t : Token) (words : List Token) (close : Token) : Prop where
  begins : t.kind = .blockBegin
  inner : Inner words
  ends : close.kind = .blockEnd

/-- Words that belong neither to a note nor to a verbatim block.  Only a raw block whose tag holds
nothing but the keyword is one. -/
def Worded : List Token → Prop
  | [] => True
  | keyword :: words => keyword.kind = .name →
    keyword.text ≠ "#" ∧ keyword.text ≠ "comment" ∧ (keyword.text = "raw" → words ≠ [])

/-- A verbatim block that comes whole: its tag, its content and its end tag. -/
structure Whole (v : Lexer.Verbatim) (t keyword : Token) (words : List Token)
    (close content t' word close' : Token) : Prop where
  opens : Delimits t (keyword :: words) close
  isName : keyword.kind = .name
  text : keyword.text = v.keyword
  bare : v = .raw → words = []
  holds : content.kind = .raw
  closes : Delimits t' [word] close'
  isNameEnd : word.kind = .name
  textEnd : word.text = "end" ++ v.keyword

/-- Tokens as they come from a source.  A content without the tag before it is what remains of a
verbatim block when its tag is one of the host. -/
inductive Layout : List Token → Prop where
  | last {t : Token} : t.kind = .eof → Layout [t]
  | data {t : Token} {rest : List Token} : t.kind = .data → Layout rest → Layout (t :: rest)
  | content {t : Token} {rest : List Token} : t.kind = .raw → Layout rest → Layout (t :: rest)
  | output {t close : Token} {words rest : List Token} :
    t.kind = .variableBegin → Inner words → close.kind = .variableEnd → Layout rest →
    Layout (t :: (words ++ close :: rest))
  | tag {t close : Token} {words rest : List Token} :
    Delimits t words close → Worded words → Layout rest → Layout (t :: (words ++ close :: rest))
  | verbatim (v : Lexer.Verbatim) {t keyword close content t' word close' : Token}
    {words rest : List Token} :
    Whole v t keyword words close content t' word close' → Layout rest →
    Layout (t :: (keyword :: words ++ close :: content :: t' :: word :: close' :: rest))
  | note {t keyword content close : Token} {rest : List Token} :
    Delimits t [keyword] close → keyword.kind = .name → keyword.text = "#" →
    content.kind = .raw → Layout rest → Layout (t :: keyword :: content :: close :: rest)

/-! ## Words -/

/-- A lexeme that stands between delimiters.  Only the keyword of a note is the name `#`. -/
structure Lexeme.IsWord (l : Lexeme) : Prop where
  inner : l.kind.inner = true
  named : l.kind = .name → l.text ≠ ['#']

theorem Lexeme.isWord_of_ne {l : Lexeme} (h : l.kind.inner = true) (hn : l.kind ≠ .name) :
    l.IsWord := ⟨h, fun he => absurd he hn⟩

namespace Lexer

section

variable {c : Char} {s rest : List Char} {afterDot : Bool}

theorem isWord_string {w : Word (c :: rest)} (h : string? c rest = some w) :
    w.lexeme.IsWord := by
  unfold string? at h
  split at h
  · cases h
    exact Lexeme.isWord_of_ne rfl Token.Kind.noConfusion
  · cases h

theorem isWord_number (afterDot : Bool) (sign here : List Char)
    (hl : rest.length < here.length) : (number c rest afterDot sign here hl).lexeme.IsWord := by
  unfold number
  dsimp only
  split
  · exact Lexeme.isWord_of_ne rfl Token.Kind.noConfusion
  · split
    · exact Lexeme.isWord_of_ne rfl Token.Kind.noConfusion
    · exact Lexeme.isWord_of_ne rfl Token.Kind.noConfusion

theorem isWord_number? {w : Word s} (h : number? afterDot s = some w) : w.lexeme.IsWord := by
  unfold number? at h
  split at h
  · cases h
  · split at h
    · cases h
      exact isWord_number afterDot _ _ _
    · split at h
      · split at h
        · split at h
          · cases h
            exact isWord_number afterDot _ _ _
          · cases h
        · cases h
      · cases h

theorem isWord_name {w : Word s} (h : name? s = some w) : w.lexeme.IsWord := by
  unfold name? at h
  split at h
  · cases h
  · split at h
    · rename_i hc
      cases h
      refine ⟨rfl, fun _ he => ?_⟩
      obtain rfl := (List.cons.inj he).1
      exact absurd hc (by decide)
    · cases h

theorem isWord_operator {more : List (String × Token.Kind)}
    (hm : more.all (fun o => o.2.inner && o.2 != .name) = true) {w : Word s}
    (h : operator? s more = some w) : w.lexeme.IsWord := by
  induction more with
  | nil => cases h
  | cons o more ih =>
    rw [List.all_cons, Bool.and_eq_true, Bool.and_eq_true, bne_iff_ne] at hm
    unfold operator? at h
    split at h
    · split at h
      · cases h
        exact Lexeme.isWord_of_ne hm.1.1 hm.1.2
      · exact ih hm.2 h
    · exact ih hm.2 h

theorem isWord_word {w : Word (c :: rest)} (h : word afterDot c rest = .ok w) :
    w.lexeme.IsWord := by
  unfold word at h
  split at h
  · split at h
    · rename_i hs
      cases h
      exact isWord_string hs
    · cases h
  · split at h
    · rename_i hn
      cases h
      exact isWord_number? hn
    · split at h
      · rename_i hn
        cases h
        exact isWord_name hn
      · split at h
        · rename_i ho
          cases h
          exact isWord_operator rfl ho
        · cases h

end

/-- What stands in a region are words and the closing delimiter. -/
theorem words_inside {region : Region} {begin : List Char} {afterDot : Bool} {s : List Char}
    {r : Scan s} (h : inside region begin afterDot s = .ok r) :
    ∃ words last, r.lexemes = words ++ [last] ∧ (∀ l ∈ words, l.IsWord) ∧
      last.kind = region.closeKind := by
  unfold inside at h
  split at h
  · cases h
  · rename_i c rest ht
    dsimp only at h
    split at h
    · cases h
      exact ⟨[], _, rfl, fun _ hm => absurd hm List.not_mem_nil, rfl⟩
    · cases hw : word afterDot c rest with
      | error e => rw [hw] at h; cases h
      | ok w =>
        have hl : w.rest.length < s.length :=
          Nat.lt_of_lt_of_le w.shorter (ht ▸ trimStart_length_le s)
        rw [hw] at h
        change (inside region begin (w.lexeme.kind == .dot) w.rest >>= _) = _ at h
        cases hmore : inside region begin (w.lexeme.kind == .dot) w.rest with
        | error e => rw [hmore] at h; cases h
        | ok more =>
          rw [hmore] at h
          cases h
          obtain ⟨words, last, he, hwords, hlast⟩ := words_inside hmore
          refine ⟨w.lexeme :: words, last, congrArg (w.lexeme :: ·) he, ?_, hlast⟩
          exact List.forall_mem_cons.2 ⟨isWord_word hw, hwords⟩
termination_by s.length

end Lexer

/-! ## Regions -/

namespace Lexer

variable {places : Array Position} {begin s : List Char} {t : Token} {rest : List Token}

/-- Words as tokens stand between delimiters. -/
theorem inner_map {words : List Lexeme} (h : ∀ l ∈ words, l.IsWord) :
    Inner (words.map (Lexeme.toToken places)) := by
  intro u hu
  obtain ⟨l, hl, rfl⟩ := List.mem_map.1 hu
  exact (h l hl).inner

theorem layout_output {r : Scan s} (h : inside .output begin false s = .ok r)
    (ht : t.kind = .variableBegin) (hr : Layout rest) :
    Layout (t :: (r.lexemes.map (Lexeme.toToken places) ++ rest)) := by
  obtain ⟨words, last, he, hw, hl⟩ := words_inside h
  rw [he, List.map_append, List.append_assoc]
  exact .output ht (inner_map hw) hl hr

/-- A text of a token is that of its lexeme. -/
theorem text_toToken_eq {l : Lexeme} {text : String} (h : l.text = text.toList) :
    (l.toToken places).text = text := by
  rw [Lexeme.toToken, h]
  exact String.ofList_toList

theorem text_eq_of_toToken {l : Lexeme} {text : String}
    (h : (l.toToken places).text = text) : l.text = text.toList := by
  rw [← h, Lexeme.toToken]
  exact String.toList_ofList.symm

theorem worded_of_verbatim? {words : List Lexeme} {last : Lexeme}
    (hw : ∀ l ∈ words, l.IsWord) (hv : verbatim? (words ++ [last]) = none) :
    Worded (words.map (Lexeme.toToken places)) := by
  cases words with
  | nil => trivial
  | cons keyword words =>
    intro hk
    change keyword.kind = .name at hk
    rw [List.cons_append, verbatim?, if_pos hk] at hv
    split at hv
    · cases hv
    · rename_i hc
      split at hv
      · cases hv
      · rename_i hr
        refine ⟨fun he => ?_, fun he => hc (text_eq_of_toToken he), fun he hnil => ?_⟩
        · exact (hw keyword (.head words)).named hk (text_eq_of_toToken he)
        · rw [List.map_eq_nil_iff] at hnil
          exact hr ⟨text_eq_of_toToken he, by rw [hnil]; rfl⟩

/-- A tag that opens a verbatim block holds its keyword. -/
theorem keyword_of_verbatim? {words : List Lexeme} {last : Lexeme} {v : Verbatim}
    (hl : last.kind ≠ .name) (hv : verbatim? (words ++ [last]) = some v) :
    ∃ keyword more, words = keyword :: more ∧ keyword.kind = .name ∧
      keyword.text = v.keyword.toList ∧ (v = .raw → more = []) := by
  cases words with
  | nil =>
    rw [List.nil_append, verbatim?, if_neg hl] at hv
    cases hv
  | cons keyword words =>
    rw [List.cons_append, verbatim?] at hv
    split at hv
    · rename_i hk
      refine ⟨keyword, words, rfl, hk, ?_⟩
      split at hv
      · rename_i hc
        cases hv
        exact ⟨hc, Verbatim.noConfusion⟩
      · split at hv
        · rename_i hr
          cases hv
          refine ⟨hr.1, fun _ => List.eq_nil_of_length_eq_zero ?_⟩
          have hlen := hr.2
          rw [List.length_append, List.length_singleton] at hlen
          omega
        · cases hv
    · cases hv

theorem layout_tagRegion {r : Scan s} (h : tagRegion begin s = .ok r)
    (ht : t.kind = .blockBegin) (hr : Layout rest) :
    Layout (t :: (r.lexemes.map (Lexeme.toToken places) ++ rest)) := by
  unfold tagRegion at h
  cases hi : inside .tag begin false s with
  | error e => rw [hi] at h; cases h
  | ok scan =>
    obtain ⟨words, last, he, hw, hl⟩ := words_inside hi
    have hd : Delimits t (words.map (Lexeme.toToken places)) (last.toToken places) :=
      ⟨ht, inner_map hw, hl⟩
    rw [hi] at h
    dsimp only [bind, Except.bind] at h
    split at h
    · rename_i hv
      cases h
      rw [he] at hv
      rw [he, List.map_append, List.append_assoc]
      exact .tag hd (worded_of_verbatim? hw hv) hr
    · rename_i v hv
      split at h
      · cases h
      · cases h
        rw [he] at hv
        have hn : last.kind ≠ .name := hl ▸ Token.Kind.noConfusion
        obtain ⟨keyword, more, rfl, hk, htext, hraw⟩ := keyword_of_verbatim? hn hv
        rw [he, List.append_assoc, List.map_append, List.append_assoc]
        have bare (hv : v = .raw) : more.map (Lexeme.toToken places) = [] := by
          rw [hraw hv]
          rfl
        exact .verbatim v ⟨hd, hk, text_toToken_eq htext, bare, rfl,
          ⟨rfl, inner_cons rfl inner_nil, rfl⟩, rfl, text_toToken_eq rfl⟩ hr

theorem layout_region {region : Region} {r : Scan s}
    (h : Lexer.region region begin s = .ok r) (ht : t.kind = region.openKind)
    (hr : Layout rest) : Layout (t :: (r.lexemes.map (Lexeme.toToken places) ++ rest)) := by
  unfold Lexer.region at h
  split at h
  · exact layout_output h ht hr
  · split at h
    · unfold noteRegion at h
      split at h
      · cases h
      · cases h
        exact .note ⟨ht, inner_cons rfl inner_nil, rfl⟩ rfl rfl rfl hr
    · exact layout_tagRegion h ht hr

/-! ## Sources -/

theorem layout_data (left right : Bool) (text here : List Char) (hr : Layout rest) :
    Layout ((data left right text here).map (Lexeme.toToken places) ++ rest) := by
  unfold data
  split
  · exact hr
  · exact .data rfl hr

theorem layout_lexemes {trim : Bool} {s : List Char} {ls : List Lexeme}
    (h : lexemes trim s = .ok ls) : Layout (ls.map (Lexeme.toToken places)) := by
  unfold lexemes at h
  split at h
  · cases h
    rw [List.map_append]
    exact layout_data _ _ _ _ (.last rfl)
  · rename_i o ho
    cases hr : region o.region o.here o.mark.rest with
    | error e => rw [hr] at h; cases h
    | ok r =>
      have hl : r.rest.length < s.length :=
        Nat.lt_of_lt_of_le r.shorter (suffix_findOpening ho).2.length_le
      rw [hr] at h
      change (lexemes r.trim r.rest >>= _) = _ at h
      cases hm : lexemes r.trim r.rest with
      | error e => rw [hm] at h; cases h
      | ok more =>
        rw [hm] at h
        cases h
        rw [List.map_append, List.map_cons, List.map_append]
        exact layout_data _ _ _ _ (layout_region hr rfl (layout_lexemes hm))
termination_by s.length

end Lexer

/-- The tokens of a source are texts, outputs and tags up to its end. -/
theorem layout_tokenize {source : String} {tokens : List Token}
    (h : tokenize source = .ok tokens) : Layout tokens := by
  unfold tokenize at h
  dsimp only at h
  cases hl : Lexer.lexemes false source.toList with
  | error e => rw [hl] at h; cases h
  | ok ls =>
    rw [hl] at h
    cases h
    exact Lexer.layout_lexemes hl

end Liquid
