import Liquid.Proofs.Reading.Cutting

/-!
# Words in front of another blank

Of the blanks around the words of a region nothing is read, and what stands behind the blanks
changes no word in front of them: a word is the longest that is written at its place, only a string
holds a blank, and a string ends at the next quote of its kind.  So the words of a region may be
taken out of it, without the blanks around them, and are the same words in front of any other
delimiter.

* `Spelling.quoted_or_plain`: a word is a string, or it holds neither blanks nor quotes.
* `Lexer.Takes.before_space`: what stands behind a space takes no part in the words before it.
* `Lexer.IntoWords.respaced`: the same words with one space behind them, in front of anything.
-/
namespace Liquid

open Liquid.Text

/-! ## Strings and other words -/

/-- Characters that only a string holds. -/
def OnlyQuoted (c : Char) : Prop := isBlank c = true ∨ c = '"' ∨ c = '\''

section

variable {c : Char}

theorem not_onlyQuoted_of_isWord (h : isWord c = true) : ¬ OnlyQuoted c := by
  intro hc
  obtain hb | rfl | rfl := hc
  · rw [Lexer.isWord_of_isBlank hb] at h
    cases h
  · exact absurd h (by decide)
  · exact absurd h (by decide)

theorem not_onlyQuoted_of_beginsName (h : Lexer.beginsName c = true) : ¬ OnlyQuoted c := by
  intro hc
  obtain hb | rfl | rfl := hc
  · rw [Lexer.isBlank_of_beginsName h] at hb
    cases hb
  · exact absurd h (by decide)
  · exact absurd h (by decide)

theorem not_onlyQuoted_of_isDigit (h : isDigit c = true) : ¬ OnlyQuoted c := by
  intro hc
  obtain hb | hq := hc
  · rw [Lexer.isBlank_of_isDigit h] at hb
    cases hb
  · exact Lexer.not_quote_of_isDigit h hq

theorem not_onlyQuoted_hyphen : ¬ OnlyQuoted '-' := by simp [OnlyQuoted, isBlank]

end

namespace Spelling

/-- A string between quotes of this kind. -/
def Quoted (v : Spelling) (quote : Char) : Prop :=
  ∃ content, quote ∉ content ∧ v.chars = quote :: (content ++ [quote])

/-- A word is a string, or it holds neither blanks nor quotes. -/
theorem quoted_or_plain (v : Spelling) :
    (∃ quote, (quote = '"' ∨ quote = '\'') ∧ v.Quoted quote) ∨ ∀ c ∈ v.chars, ¬ OnlyQuoted c := by
  obtain ⟨kind, text, chars, hv⟩ := v
  have sign_plain {sign : List Char} (hg : sign = [] ∨ sign = ['-']) :
      ∀ c ∈ sign, ¬ OnlyQuoted c := by
    obtain rfl | rfl := hg
    · simp
    · simpa using not_onlyQuoted_hyphen
  cases hv with
  | @name c kept mark hc hk _ hm =>
    refine .inr ?_
    have hmark : ∀ d ∈ mark, ¬ OnlyQuoted d := by
      obtain rfl | rfl := hm <;> simp [OnlyQuoted, isBlank]
    have hkept : ∀ d ∈ kept, ¬ OnlyQuoted d := by
      intro d hd
      obtain hw | rfl := hk d hd
      · exact not_onlyQuoted_of_isWord hw
      · exact not_onlyQuoted_hyphen
    exact List.forall_mem_cons.2
      ⟨not_onlyQuoted_of_beginsName hc, List.forall_mem_append.2 ⟨hkept, hmark⟩⟩
  | @string quote content hq hn => exact .inl ⟨quote, hq, content, hn, rfl⟩
  | integer hg _ hd =>
    refine .inr (List.forall_mem_append.2 ⟨sign_plain hg, fun c hc => ?_⟩)
    exact not_onlyQuoted_of_isDigit (hd c hc)
  | float hg _ hd _ hf =>
    refine .inr (List.forall_mem_append.2 ⟨List.forall_mem_append.2 ⟨sign_plain hg, ?_⟩, ?_⟩)
    · exact fun c hc => not_onlyQuoted_of_isDigit (hd c hc)
    · refine List.forall_mem_cons.2 ⟨by simp [OnlyQuoted, isBlank], fun c hc => ?_⟩
      exact not_onlyQuoted_of_isDigit (hf c hc)
  | operator ho =>
    have hall : Lexer.operators.all (fun o =>
        o.1.toList.all fun c => !(isBlank c || c == '"' || c == '\'')) = true := rfl
    refine .inr fun c hc => ?_
    have hplain := List.all_eq_true.1 (List.all_eq_true.1 hall _ ho) c hc
    simpa [OnlyQuoted, and_assoc] using hplain

/-- A word with a blank or a quote in it is a string. -/
theorem quoted_of_mem {v : Spelling} {c : Char} (hc : c ∈ v.chars) (h : OnlyQuoted c) :
    ∃ quote, (quote = '"' ∨ quote = '\'') ∧ v.Quoted quote := by
  obtain hq | hp := v.quoted_or_plain
  · exact hq
  · exact absurd h (hp c hc)

/-- No word ends in a blank. -/
theorem getLast?_not_blank (v : Spelling) : ∀ c ∈ v.chars.getLast?, isBlank c = false := by
  intro c hc
  obtain ⟨quote, hq, content, -, hv⟩ | hp := v.quoted_or_plain
  · have he : quote = c := by simpa [hv, List.getLast?_cons] using hc
    subst he
    obtain rfl | rfl := hq <;> decide
  · have hb := hp c (List.mem_of_getLast? hc)
    simpa [OnlyQuoted] using fun h : isBlank c = true => hb (.inl h)

/-- Of two strings with quotes of one kind neither is a proper beginning of the other. -/
theorem Quoted.length_le {v w : Spelling} {quote : Char} (hv : v.Quoted quote)
    (hw : w.Quoted quote) (h : w.chars <+: v.chars) : v.chars.length ≤ w.chars.length := by
  obtain ⟨content, hn, hv⟩ := hv
  obtain ⟨content', -, hw⟩ := hw
  rw [hv, hw] at h
  have h := (List.cons_prefix_cons.1 h).2
  by_cases hlen : content.length ≤ content'.length
  · simp [hv, hw, hlen]
  · -- The end of the shorter string would stand within the longer one.
    have hin : content' ++ [quote] <+: content := by
      refine List.prefix_of_prefix_length_le h (List.prefix_append content [quote]) ?_
      simp
      omega
    exact absurd (hin.subset (by simp)) hn

end Spelling

/-! ## Words in front of a space -/

/-- The kind and the text of a lexeme. -/
def Lexeme.bare (l : Lexeme) : Token.Kind × List Char := (l.kind, l.text)

namespace Lexer

section

variable {point : Bool} {w : Spelling} {x y s after : List Char} {l : Lexeme} {ls : List Lexeme}

/-- What stands behind a space takes no part in a word before it. -/
theorem Takes.before_space (h : Takes point w (x ++ y)) (z : List Char) :
    Takes point w (x ++ ' ' :: z) := by
  refine ⟨h.follows, fun v hp hv => ?_⟩
  by_cases hlen : v.chars.length ≤ (w.chars ++ x).length
  · have hx : v.chars <+: w.chars ++ x :=
      List.prefix_of_prefix_length_le hv (by simp [← List.append_assoc]) hlen
    refine h.longest v hp (hx.trans ?_)
    simp [← List.append_assoc]
  · -- A word that reaches the space is a string, and so is the word that begins at its quote.
    have hlong : w.chars ++ x ++ [' '] <+: v.chars := by
      refine List.prefix_of_prefix_length_le (by simp) hv ?_
      simp at hlen ⊢
      omega
    have hspace : OnlyQuoted ' ' := .inl (by decide)
    obtain ⟨quote, hq, hquoted⟩ := Spelling.quoted_of_mem (hlong.subset (by simp)) hspace
    have hw : w.chars <+: v.chars := by
      rw [List.append_assoc] at hlong
      exact (List.prefix_append _ _).trans hlong
    obtain ⟨c, cs, hc⟩ := w.chars_eq_cons
    have hhead : c = quote := by
      obtain ⟨content, -, hv⟩ := hquoted
      rw [hc, hv] at hw
      exact (List.cons_prefix_cons.1 hw).1
    obtain ⟨quote', hq', hquoted'⟩ :=
      Spelling.quoted_of_mem (v := w) (c := c) (by simp [hc]) (.inr (hhead ▸ hq))
    have hsame : quote' = quote := by
      obtain ⟨content', -, hw⟩ := hquoted'
      rw [hc] at hw
      exact (List.cons.inj hw).1.symm.trans hhead
    exact hquoted.length_le (hsame ▸ hquoted') hw

theorem trimEnd_blank {blank : List Char} (hb : Blank blank) : trimEnd blank = [] := by
  have hn : ∀ c ∈ ([] : List Char).getLast?, isBlank c = false := by simp
  simpa using trimEnd_of_blank hn hb

/-- Blanks behind the last word are no part of a text with words. -/
theorem trimEnd_words (blank : List Char) (w : Spelling) (s : List Char) :
    trimEnd (blank ++ (w.chars ++ s)) = blank ++ (w.chars ++ trimEnd s) := by
  obtain ⟨b, hs, hb⟩ := trimEnd_append s
  have hlast : ∀ c ∈ (blank ++ (w.chars ++ trimEnd s)).getLast?, isBlank c = false := by
    intro c hc
    by_cases hn : trimEnd s = []
    · obtain ⟨d, ds, hd⟩ := w.chars_eq_cons
      refine w.getLast?_not_blank c ?_
      rw [hn, List.append_nil, List.getLast?_append] at hc
      simpa [hd, List.getLast?_cons] using hc
    · refine getLast?_trimEnd s c ?_
      rw [← List.append_assoc, List.getLast?_append] at hc
      rw [List.getLast?_eq_some_getLast hn] at hc ⊢
      exact hc
  have h := trimEnd_of_blank hlast hb
  rwa [List.append_assoc, List.append_assoc, hs] at h

/-- A text with words ends in no hyphen, whatever blanks are behind the last one. -/
theorem IntoWords.getLast?_trimEnd_ne (h : IntoWords after point s ls) :
    (trimEnd s).getLast? ≠ some '-' := by
  induction h with
  | nil hb => simp [trimEnd_blank hb]
  | @cons _ blank s w _ hb _ _ ih =>
    rw [trimEnd_words]
    exact getLast?_append_ne hb.getLast?_ne (getLast?_append_ne w.spells.getLast?_ne ih)

/-- The same words with one space behind them, in front of anything else. -/
theorem IntoWords.respaced (h : IntoWords after point s ls) (z : List Char) :
    ∃ ls', IntoWords z point (trimEnd s ++ [' ']) ls' ∧
      ls'.map Lexeme.bare = ls.map Lexeme.bare := by
  induction h with
  | nil hb =>
    refine ⟨[], .nil ?_, rfl⟩
    simp [trimEnd_blank hb, Blank, isBlank]
  | @cons point blank s w ls hb ht _ ih =>
    obtain ⟨ls', hls, he⟩ := ih
    obtain ⟨b, hs, -⟩ := trimEnd_append s
    rw [← hs, List.append_assoc] at ht
    have ht : Takes point w (trimEnd s ++ [' '] ++ z) := by
      simpa using ht.before_space z
    refine ⟨⟨w.kind, w.text.toList, w.chars ++ (trimEnd s ++ [' '] ++ z), false⟩ :: ls', ?_, ?_⟩
    · rw [trimEnd_words, List.append_assoc, List.append_assoc]
      exact .cons hb ht hls
    · simp [Lexeme.bare, he]

/-- More blanks in front of the first word. -/
theorem IntoWords.behind_blank {blank : List Char} (hb : Blank blank)
    (h : IntoWords after point s ls) : IntoWords after point (blank ++ s) ls := by
  cases h with
  | nil h => exact .nil (hb.append h)
  | cons h ht hmore =>
    rw [← List.append_assoc]
    exact .cons (hb.append h) ht hmore

/-- The words from the first one on, without the blanks before it. -/
theorem IntoWords.from_first (h : IntoWords after point s (l :: ls)) :
    ∃ blank inner, s = blank ++ inner ∧ IntoWords after point inner (l :: ls) ∧
      ∀ c ∈ inner.head?, isBlank c = false := by
  cases h with
  | @cons _ blank s w _ hb ht hmore =>
    refine ⟨blank, w.chars ++ s, rfl, .cons blank_nil ht hmore, fun c hc => ?_⟩
    obtain ⟨⟨d, ds, hd, hdb, -⟩, -⟩ := opens_spelling w s
    simp [hd] at hc
    rwa [← hc]

/-- The first word stands at the beginning, if no blank is there. -/
theorem IntoWords.begins (h : IntoWords after point s (l :: ls))
    (hs : ∀ c ∈ s.head?, isBlank c = false) :
    l.here = s ++ after ∧ ∃ w : Spelling, ∃ more, s = w.chars ++ more := by
  cases h with
  | @cons _ blank s w _ hb _ _ =>
    cases blank with
    | nil => exact ⟨by simp, w, s, rfl⟩
    | cons c blank =>
      have hc := hs c (by simp)
      rw [hb c (.head _)] at hc
      cases hc

/-- No blank is before the first word either when other blanks are behind the last one. -/
theorem IntoWords.head?_trimEnd (h : IntoWords after point s (l :: ls))
    (hs : ∀ c ∈ s.head?, isBlank c = false) :
    ∀ c ∈ (trimEnd s ++ [' ']).head?, isBlank c = false := by
  obtain ⟨-, w, more, rfl⟩ := h.begins hs
  obtain ⟨c, cs, hc⟩ := w.chars_eq_cons
  have htrim : trimEnd (w.chars ++ more) = w.chars ++ trimEnd more := trimEnd_words [] w more
  rw [htrim]
  simpa [hc] using hs

/-- A name is written as it reads. -/
theorem chars_of_name (h : w.kind = .name) : w.chars = w.text.toList := by
  obtain ⟨kind, text, chars, hv⟩ := w
  have hall : ∀ o ∈ operators, o.2 ≠ .name := by decide
  cases hv with
  | name => simp
  | operator ho => exact absurd h (hall _ ho)
  | _ => cases h

/-- The same words open the same verbatim blocks. -/
theorem Verbatim.OpenedBy.of_bare {v : Verbatim} {words : List Lexeme} (ho : v.OpenedBy ls)
    (h : ls.map Lexeme.bare = words.map Lexeme.bare) : v.OpenedBy words := by
  obtain ⟨keyword, more, rfl, hk, ht, hm⟩ := ho
  cases words with
  | nil => cases h
  | cons k words =>
    simp only [List.map_cons, List.cons.injEq, Lexeme.bare, Prod.mk.injEq] at h
    obtain ⟨⟨hkind, htext⟩, hmore⟩ := h
    refine ⟨k, words, rfl, hkind ▸ hk, htext ▸ ht, fun hr => ?_⟩
    rw [hm hr] at hmore
    exact List.map_eq_nil_iff.1 hmore.symm

theorem inner_intoWords (h : IntoWords after point s ls) : ∀ l ∈ ls, l.kind.inner = true := by
  induction h with
  | nil => simp
  | @cons _ _ _ w _ _ _ _ ih =>
    refine List.forall_mem_cons.2 ⟨?_, ih⟩
    obtain ⟨kind, text, chars, hv⟩ := w
    have hall : ∀ o ∈ operators, o.2.inner = true := by decide
    cases hv with
    | operator ho => exact hall _ ho
    | _ => rfl

end

end Lexer

end Liquid
