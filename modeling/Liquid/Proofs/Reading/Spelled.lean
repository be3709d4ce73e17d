import Liquid.Proofs.Reading.Lexemes
import Liquid.Proofs.Reading.Spelling

/-!
# What a word was written with

Reading a word takes a spelling of it off the source and nothing else: the characters of the word
and then what is left are the source again.  Of the words that can be written there it is the
longest.  No word ends in a hyphen, so a hyphen in front of a closing delimiter belongs to the
delimiter.

* `Spells.getLast?_ne`: no word ends in a hyphen.
* `Lexer.spelled_word`, `Lexer.longest_word`: a word that is read was written so, and no longer one.
* `Lexer.word_eq_ok`: both together.
-/
namespace Liquid

open Liquid.Text

namespace Text

/-- A text is split where the separator comes first. -/
theorem notMem_of_splitFirst? {c : Char} {s before rest : List Char}
    (h : splitFirst? [c] s = some (before, rest)) : c ∉ before := by
  induction s generalizing before with
  | nil => simp [splitFirst?] at h
  | cons d s ih =>
    by_cases hd : c = d
    · simp [splitFirst?, dropPrefix?, hd] at h
      simp [h.1]
    · simp only [splitFirst?, dropPrefix?, hd, if_false, Option.map_eq_some_iff] at h
      obtain ⟨⟨b, r⟩, hb, he⟩ := h
      cases he
      simp [hd, ih hb]

end Text

/-! ## The end of a word -/

section

variable {c : Char} {s : List Char}

theorem ne_hyphen_of_isDigit (h : isDigit c = true) : c ≠ '-' := by
  intro he
  subst he
  exact absurd h (by decide)

theorem getLast?_ne_of_forall {p : Char → Prop} (hp : ∀ c, p c → c ≠ '-') (h : ∀ c ∈ s, p c) :
    s.getLast? ≠ some '-' :=
  fun hl => hp _ (h _ (List.mem_of_getLast? hl)) rfl

theorem getLast?_append_ne {t : List Char} (hs : s.getLast? ≠ some '-')
    (ht : t.getLast? ≠ some '-') : (s ++ t).getLast? ≠ some '-' := by
  intro h
  rw [List.getLast?_append, Option.or_eq_some_iff] at h
  rcases h with h | ⟨-, h⟩
  · exact ht h
  · exact hs h

theorem getLast?_append_of_ne_nil {t : List Char} (ht : t ≠ []) (h : t.getLast? ≠ some '-') :
    (s ++ t).getLast? ≠ some '-' := by
  rw [List.getLast?_eq_some_getLast ht] at h
  rw [List.getLast?_append, List.getLast?_eq_some_getLast ht]
  exact h

/-- No word ends in a hyphen. -/
theorem Spells.getLast?_ne {kind : Token.Kind} {text : String} {chars : List Char}
    (h : Spells kind text chars) : chars.getLast? ≠ some '-' := by
  cases h with
  | @name c kept mark hc hk hl hm =>
    have hc : c ≠ '-' := by
      intro he
      subst he
      exact absurd hc (by decide)
    have hm : mark.getLast? ≠ some '-' := by
      rcases hm with rfl | rfl
      · simp
      · simp
    exact getLast?_append_ne (s := [c]) (by simpa using hc) (getLast?_append_ne hl hm)
  | @string quote content hq hn =>
    have hq : quote ≠ '-' := by
      rcases hq with rfl | rfl
      · decide
      · decide
    rw [← List.cons_append]
    exact getLast?_append_of_ne_nil (by simp) (by simpa using hq)
  | integer hg hn hd =>
    exact getLast?_append_of_ne_nil hn (getLast?_ne_of_forall (fun _ => ne_hyphen_of_isDigit) hd)
  | @float sign digits fraction hg hn hd hf hfd =>
    have hf := getLast?_append_of_ne_nil (s := ['.']) hf
      (getLast?_ne_of_forall (fun _ => ne_hyphen_of_isDigit) hfd)
    exact getLast?_append_of_ne_nil (t := '.' :: fraction) (by simp) hf
  | operator ho =>
    have hall : ∀ o ∈ Lexer.operators, o.1.toList.getLast? ≠ some '-' := by decide
    exact hall _ ho

end

/-! ## Reading -/

namespace Lexer

variable {c : Char} {s rest sign here : List Char}

/-- A word was written with the characters in front of what it leaves; `point` tells whether a
point stands before it. -/
def Word.Spelled (point : Bool) (w : Word s) : Prop :=
  ∃ v : Spelling, w.lexeme = ⟨v.kind, v.text.toList, s, false⟩ ∧ s = v.chars ++ w.rest ∧
    (point = true → v.FollowsPoint)

variable {point : Bool}

theorem Word.spelled {w : Word s} {kind : Token.Kind} {text chars : List Char}
    (hl : w.lexeme = ⟨kind, text, s, false⟩) (h : Spells kind (String.ofList text) chars)
    (hs : s = chars ++ w.rest)
    (hp : point = true → kind ≠ .float ∧ (kind = .integer → ∀ d ∈ chars, isDigit d = true)) :
    w.Spelled point := by
  refine ⟨⟨kind, String.ofList text, chars, h⟩, ?_, hs, hp⟩
  rw [hl, String.toList_ofList]

theorem spelled_string {w : Word (c :: rest)} (hq : c = '"' ∨ c = '\'')
    (h : string? c rest = some w) : w.Spelled point := by
  unfold string? at h
  split at h
  · rename_i content rest' hs
    cases h
    refine Word.spelled rfl (.string hq (notMem_of_splitFirst? hs)) ?_ (by simp)
    have he := splitFirst?_eq_some hs
    simp only [he, List.cons_append, List.append_assoc]
  · cases h

theorem append_of_fraction {f r : List Char} (h : fraction? s = some (f, r)) : s = f ++ r := by
  unfold fraction? at h
  split at h
  · split at h
    · cases h
      simp
    · cases h
  · cases h

theorem spelled_number {hl : rest.length < here.length} (hh : here = sign ++ c :: rest)
    (hc : isDigit c = true) (hg : sign = [] ∨ sign = ['-']) (hp : point = true → sign = []) :
    (number c rest point sign here hl).Spelled point := by
  have hd := isDigit_takeWhile hc rest
  have whole : here = (sign ++ c :: rest.takeWhile isDigit) ++ rest.dropWhile isDigit := by
    rw [hh, List.append_assoc, List.cons_append, List.takeWhile_append_dropWhile]
  unfold number
  dsimp only
  split
  · rename_i ht
    obtain rfl := hp ht
    exact Word.spelled rfl (.integer hg (by simp) hd) whole fun _ => ⟨by simp, fun _ => hd⟩
  · rename_i hn
    split
    · rename_i fraction rest' hf
      have he := append_of_fraction hf
      obtain ⟨⟨d, ds, rfl, hds⟩, -⟩ := fraction_eq hf
      exact Word.spelled rfl (.float hg (by simp) hd (by simp) hds)
        (whole.trans ((congrArg _ he).trans (List.append_assoc _ _ _).symm)) fun hp => absurd hp hn
    · exact Word.spelled rfl (.integer hg (by simp) hd) whole fun hp => absurd hp hn

theorem spelled_number? {w : Word s} (h : number? point s = some w) : w.Spelled point := by
  unfold number? at h
  split at h
  · cases h
  · split at h
    · rename_i hc
      cases h
      exact spelled_number (List.nil_append _).symm hc (.inl rfl) fun _ => rfl
    · split at h
      · rename_i hm
        obtain ⟨hm, hp⟩ := Bool.and_eq_true_iff.1 hm
        obtain rfl := of_decide_eq_true hm
        split at h
        · split at h
          · rename_i hd
            cases h
            refine spelled_number List.singleton_append.symm hd (.inr rfl) fun ht => ?_
            simp [ht] at hp
          · cases h
        · cases h
      · cases h

/-- Behind its first character a name goes on with word characters and hyphens, the last of which
is no hyphen, and perhaps a question mark. -/
theorem nameTail_spelled (s : List Char) : ∃ kept mark, (nameTail s).1 = kept ++ mark ∧
    (∀ d ∈ kept, isWord d = true ∨ d = '-') ∧ kept.getLast? ≠ some '-' ∧
    (mark = [] ∨ mark = ['?']) ∧ s = (nameTail s).1 ++ (nameTail s).2 := by
  unfold nameTail
  dsimp only
  generalize hrun : s.takeWhile (fun c => isWord c || c == '-') = run
  generalize hkept : (run.reverse.dropWhile (· == '-')).reverse = kept
  have hpre : kept <+: run := by
    rw [← hkept, ← List.reverse_suffix, List.reverse_reverse]
    exact List.dropWhile_suffix _
  have hs : kept <+: s := hpre.trans (hrun ▸ List.takeWhile_prefix _)
  have hword : ∀ d ∈ kept, isWord d = true ∨ d = '-' := by
    intro d hd
    have hall := List.all_eq_true.1 (List.all_takeWhile (l := s)) d (hrun ▸ hpre.subset hd)
    simpa using hall
  have hlast : kept.getLast? ≠ some '-' := by
    intro hl
    rw [← hkept, List.getLast?_reverse] at hl
    have hd := List.head?_dropWhile_not (· == '-') run.reverse
    rw [hl] at hd
    simp at hd
  have he : s = kept ++ s.drop kept.length := by
    obtain ⟨t, rfl⟩ := hs
    rw [List.drop_left]
  split
  · rename_i rest hdrop
    rw [hdrop] at he
    exact ⟨kept, ['?'], rfl, hword, hlast, .inr rfl, by simpa using he⟩
  · exact ⟨kept, [], by simp, hword, hlast, .inl rfl, he⟩

theorem spelled_name {w : Word s} (h : name? s = some w) : w.Spelled point := by
  unfold name? at h
  split at h
  · cases h
  · rename_i c rest
    split at h
    · rename_i hc
      cases h
      obtain ⟨kept, mark, htext, hk, hl, hm, he⟩ := nameTail_spelled rest
      have hw : Spells .name (String.ofList (c :: (nameTail rest).1)) (c :: (nameTail rest).1) := by
        rw [htext]
        exact .name hc hk hl hm
      exact Word.spelled rfl hw (congrArg (c :: ·) he) (by simp)
    · cases h

theorem spelled_operator {more : List (String × Token.Kind)} (hm : ∀ o ∈ more, o ∈ operators)
    {w : Word s} (h : operator? s more = some w) : w.Spelled point := by
  induction more with
  | nil => cases h
  | cons o more ih =>
    obtain ⟨text, kind⟩ := o
    have hm := List.forall_mem_cons.1 hm
    unfold operator? at h
    split at h
    · rename_i rest hd
      split at h
      · cases h
        have hkind : ∀ o ∈ operators, o.2 ≠ .float ∧ o.2 ≠ .integer := by decide
        refine ⟨⟨kind, text, _, .operator hm.1⟩, rfl, dropPrefix?_eq_some.1 hd, fun _ => ?_⟩
        exact ⟨(hkind _ hm.1).1, fun hi => absurd hi (hkind _ hm.1).2⟩
      · exact ih hm.2 h
    · exact ih hm.2 h

/-- A word that is read was written with the characters in front of what it leaves. -/
theorem spelled_word {w : Word (c :: rest)} (h : word point c rest = .ok w) : w.Spelled point := by
  unfold word at h
  split at h
  · rename_i hq
    split at h
    · rename_i hs
      cases h
      exact spelled_string hq hs
    · cases h
  · split at h
    · rename_i hn
      cases h
      exact spelled_number? hn
    · split at h
      · rename_i hn
        cases h
        exact spelled_name hn
      · split at h
        · rename_i ho
          cases h
          exact spelled_operator (fun _ ho => ho) ho
        · cases h

/-! ## The longest word -/

/-- No word that can be written at the beginning of the source leaves less of it; `point` tells
whether a point stands before it. -/
def Word.Longest (point : Bool) (w : Word s) : Prop :=
  ∀ v : Spelling, (point = true → v.FollowsPoint) → v.chars <+: s →
    v.chars.length + w.rest.length ≤ s.length

/-- Of a text that begins with characters of some kind at least these are dropped. -/
theorem length_dropWhile_le {p : Char → Bool} {digits : List Char} (h : ∀ d ∈ digits, p d = true)
    (hs : digits <+: s) : digits.length + (s.dropWhile p).length ≤ s.length := by
  obtain ⟨t, rfl⟩ := hs
  rw [List.dropWhile_append_of_pos h, List.length_append]
  have := (List.dropWhile_suffix p (l := t)).length_le
  omega

theorem length_number_le {digits : List Char} {hl : rest.length < here.length}
    (hd : ∀ d ∈ digits, isDigit d = true) (hs : digits <+: rest) :
    digits.length + (number c rest point sign here hl).rest.length ≤ rest.length := by
  have h := length_dropWhile_le hd hs
  unfold number
  dsimp only
  split
  · exact h
  · split
    · rename_i hf
      have := length_fraction hf
      dsimp only
      omega
    · exact h

theorem length_number_fraction_le {digits fraction : List Char} {hl : rest.length < here.length}
    (hd : ∀ d ∈ digits, isDigit d = true) (hf : fraction ≠ [])
    (hfd : ∀ d ∈ fraction, isDigit d = true) (hs : digits ++ '.' :: fraction <+: rest) :
    digits.length + (fraction.length + 1) + (number c rest false sign here hl).rest.length ≤
      rest.length := by
  obtain ⟨t, rfl⟩ := hs
  obtain ⟨d, ds, rfl⟩ := List.exists_cons_of_ne_nil hf
  obtain ⟨hd', hds⟩ := List.forall_mem_cons.1 hfd
  have hdrop : (digits ++ '.' :: d :: ds ++ t).dropWhile isDigit = '.' :: d :: (ds ++ t) := by
    rw [List.append_assoc, List.dropWhile_append_of_pos hd]
    exact List.dropWhile_cons_of_neg (by decide)
  have hfrac : fraction? ('.' :: d :: (ds ++ t)) =
      some ('.' :: d :: (ds ++ t).takeWhile isDigit, (ds ++ t).dropWhile isDigit) := if_pos hd'
  have h := length_dropWhile_le hds (List.prefix_append ds t)
  unfold number
  dsimp only
  split
  · rename_i hp
    cases hp
  · split
    · rename_i f r hf'
      rw [hdrop, hfrac] at hf'
      cases hf'
      simp at h ⊢
      omega
    · rename_i hf'
      rw [hdrop, hfrac] at hf'
      cases hf'

/-- Dropping the hyphens at the end spares a beginning that does not end in one. -/
theorem suffix_dropWhile {front tail : List Char} (h : tail.head? ≠ some '-') :
    tail <:+ (front ++ tail).dropWhile (· == '-') := by
  induction front with
  | nil =>
    cases tail with
    | nil => exact List.nil_suffix
    | cons d tail =>
      have he : (d :: tail).dropWhile (· == '-') = d :: tail :=
        List.dropWhile_cons_of_neg (by simpa using h)
      exact ⟨[], he.symm⟩
  | cons d front ih =>
    by_cases hd : d = '-'
    · rw [List.cons_append, List.dropWhile_cons_of_pos (by simp [hd])]
      exact ih
    · rw [List.cons_append, List.dropWhile_cons_of_neg (by simpa using hd)]
      exact List.suffix_append (d :: front) tail

theorem length_nameTail_le {kept mark : List Char} (hk : ∀ d ∈ kept, isWord d = true ∨ d = '-')
    (hl : kept.getLast? ≠ some '-') (hm : mark = [] ∨ mark = ['?']) (hs : kept ++ mark <+: s) :
    kept.length + mark.length + (nameTail s).2.length ≤ s.length := by
  obtain ⟨t, rfl⟩ := hs
  have hp : ∀ d ∈ kept, (fun c => isWord c || c == '-') d = true := by
    intro d hd
    simpa using hk d hd
  unfold nameTail
  dsimp only
  rw [List.append_assoc, List.takeWhile_append_of_pos hp]
  generalize hmore : (mark ++ t).takeWhile (fun c => isWord c || c == '-') = more
  generalize hrun : ((kept ++ more).reverse.dropWhile (· == '-')).reverse = run
  have hle : kept.length ≤ run.length := by
    have h : kept.reverse <:+ (more.reverse ++ kept.reverse).dropWhile (· == '-') :=
      suffix_dropWhile (by rwa [← List.getLast?_eq_head?_reverse])
    rw [← List.reverse_append] at h
    simpa [← hrun] using h.length_le
  have hrunle : run.length ≤ (kept ++ more).length := by
    have h := (List.dropWhile_suffix (· == '-') (l := (kept ++ more).reverse)).length_le
    simpa [← hrun, Nat.add_comm] using h
  have hmorele : more.length ≤ (mark ++ t).length := by
    rw [← hmore]
    exact (List.takeWhile_prefix _).length_le
  split
  · rename_i rest hdrop
    have hlen := congrArg List.length hdrop
    have hmark : mark.length ≤ 1 := by rcases hm with rfl | rfl <;> simp
    simp at hlen hmorele hrunle ⊢
    omega
  · rename_i hdrop
    simp only [List.length_drop, List.length_append] at hmorele hrunle ⊢
    rcases hm with rfl | rfl
    · simp at hmorele ⊢
      omega
    · -- Nothing of the run is behind the name, so the question mark would have been taken.
      have hq : isWord '?' = false := by decide
      obtain rfl : more = [] := by
        rw [← hmore]
        simp [hq]
      have he : run.length = kept.length := by
        simp at hrunle
        omega
      refine absurd ?_ (hdrop t)
      rw [he, List.drop_left]
      simp

theorem longest_string {quote : Char} {content : List Char} {w : Word (quote :: rest)}
    (hq : quote = '"' ∨ quote = '\'') (hn : quote ∉ content) (hs : content ++ [quote] <+: rest)
    (h : word point quote rest = .ok w) : content.length + 2 + w.rest.length ≤ rest.length + 1 := by
  obtain ⟨t, ht⟩ := hs
  obtain rfl : content ++ quote :: t = rest := by simpa using ht
  have hw : Gets (word point quote (content ++ quote :: t)) .string content t :=
    gets_string hq hn point
  obtain ⟨w', hw, -, hr⟩ := hw
  rw [h] at hw
  cases hw
  rw [hr]
  simp
  omega

/-- Where a name begins, a name is read. -/
theorem longest_name {kept mark : List Char} {w : Word (c :: rest)} (hb : beginsName c = true)
    (hk : ∀ d ∈ kept, isWord d = true ∨ d = '-') (hl : kept.getLast? ≠ some '-')
    (hm : mark = [] ∨ mark = ['?']) (hs : kept ++ mark <+: rest) (h : word point c rest = .ok w) :
    kept.length + mark.length + w.rest.length ≤ rest.length := by
  obtain ⟨w', hw, -, hr⟩ := gets_nameTail hb point rest
  rw [h] at hw
  cases hw
  rw [hr]
  exact length_nameTail_le hk hl hm hs

/-- Sorted by length, the first operator that fits is the longest. -/
theorem longest_operator {o : String × Token.Kind} {more : List (String × Token.Kind)} {w : Word s}
    (hsort : more.Pairwise fun a b => b.1.toList.length ≤ a.1.toList.length) (ho : o ∈ more)
    (hpos : ∀ a ∈ more, 0 < a.1.toList.length) (hs : o.1.toList <+: s)
    (h : operator? s more = some w) : o.1.toList.length + w.rest.length ≤ s.length := by
  induction more with
  | nil => cases h
  | cons a more ih =>
    rw [List.pairwise_cons] at hsort
    have hpos' := List.forall_mem_cons.1 hpos
    unfold operator? at h
    split at h
    · rename_i rest' hd
      rw [dif_pos hpos'.1] at h
      cases h
      have hle : o.1.toList.length ≤ a.1.toList.length := by
        rcases List.mem_cons.1 ho with rfl | ho
        · exact Nat.le_refl _
        · exact hsort.1 o ho
      have := length_dropPrefix hd
      dsimp only
      omega
    · rename_i hd
      rcases List.mem_cons.1 ho with rfl | ho
      · obtain ⟨t, rfl⟩ := hs
        rw [dropPrefix?_eq_some.2 rfl] at hd
        cases hd
      · exact ih hsort.2 ho hpos'.2 h

theorem longest_number {sign digits tail : List Char} {w : Word (c :: rest)}
    (hg : sign = [] ∨ sign = ['-']) (hn : digits ≠ []) (hd : ∀ d ∈ digits, isDigit d = true)
    (hp : point = true → sign = [] ∧ tail = [])
    (ht : tail = [] ∨ ∃ fraction, tail = '.' :: fraction ∧ fraction ≠ [] ∧
      ∀ d ∈ fraction, isDigit d = true)
    (hs : sign ++ digits ++ tail <+: c :: rest) (h : word point c rest = .ok w) :
    (sign ++ digits ++ tail).length + w.rest.length ≤ rest.length + 1 := by
  obtain ⟨d, ds, rfl⟩ := List.exists_cons_of_ne_nil hn
  obtain ⟨hd, hds⟩ := List.forall_mem_cons.1 hd
  -- What is left of the digits and the fraction is a matter of the number alone.
  have hrest (c' : Char) (sign' : List Char) {more here : List Char}
      (hl : more.length < here.length) (hs : ds ++ tail <+: more) :
      ds.length + tail.length + (number c' more point sign' here hl).rest.length ≤ more.length := by
    rcases ht with rfl | ⟨fraction, rfl, hf, hfd⟩
    · rw [List.append_nil] at hs
      exact length_number_le hds hs
    · cases point with
      | true => exact absurd (hp rfl).2 (by simp)
      | false => exact length_number_fraction_le hds hf hfd hs
  rcases hg with rfl | rfl
  · obtain ⟨rfl, hmore⟩ := List.cons_prefix_cons.1 hs
    rw [word_of_number (not_quote_of_isDigit hd) (number?_of_digit hd)] at h
    cases h
    have := hrest d [] (length_lt_cons d rest) hmore
    simp
    omega
  · obtain ⟨hc, hmore⟩ := List.cons_prefix_cons.1 hs
    subst hc
    cases point with
    | true => exact absurd (hp rfl).1 (by simp)
    | false =>
      cases rest with
      | nil => simp at hmore
      | cons e rest =>
        obtain ⟨rfl, hdigits⟩ := List.cons_prefix_cons.1 hmore
        rw [word_of_number (by decide) (number?_of_minus hd)] at h
        cases h
        have := hrest d ['-'] (length_lt_cons_cons '-' d rest) hdigits
        simp
        omega

theorem operator?_ne_none {o : String × Token.Kind} {more : List (String × Token.Kind)}
    (ho : o ∈ more) (hpos : ∀ a ∈ more, 0 < a.1.toList.length) (hs : o.1.toList <+: s) :
    ∃ w, operator? s more = some w := by
  induction more with
  | nil => cases ho
  | cons a more ih =>
    have hpos := List.forall_mem_cons.1 hpos
    unfold operator?
    split
    · rw [dif_pos hpos.1]
      exact ⟨_, rfl⟩
    · rename_i hd
      rcases List.mem_cons.1 ho with rfl | ho
      · obtain ⟨t, rfl⟩ := hs
        rw [dropPrefix?_eq_some.2 rfl] at hd
        cases hd
      · exact ih ho hpos.2

theorem operators_pos : ∀ o ∈ operators, 0 < o.1.toList.length := by decide

/-- Where an operator is written, an operator is read. -/
theorem word_operator {o : String × Token.Kind} (ho : o ∈ operators)
    (hs : o.1.toList <+: c :: rest) (point : Bool) :
    ∃ w, word point c rest = .ok w ∧ operator? (c :: rest) operators = some w := by
  have hhead : ∀ o ∈ operators, ∃ d ds, o.1.toList = d :: ds ∧ ¬ (d = '"' ∨ d = '\'') ∧
      isDigit d = false ∧ d ≠ '-' ∧ beginsName d = false := by
    simp only [operators, List.forall_mem_cons]
    refine ⟨?_, ?_, ?_, ?_, ?_, ?_, ?_, ?_, ?_, ?_, ?_, ?_, ?_, ?_, ?_, ?_, ?_, by simp⟩
    all_goals exact ⟨_, _, rfl, by decide⟩
  obtain ⟨w, hw⟩ := operator?_ne_none ho operators_pos hs
  obtain ⟨d, ds, hd, hq, hdigit, hm, hb⟩ := hhead o ho
  rw [hd] at hs
  obtain ⟨rfl, -⟩ := List.cons_prefix_cons.1 hs
  have hname : name? (d :: rest) = none := if_neg (by simp [hb])
  refine ⟨w, ?_, hw⟩
  unfold word
  rw [if_neg hq, number?_none hdigit hm, hname, hw]
  rfl

/-- A word that is read is the longest that can be written there. -/
theorem longest_word {w : Word (c :: rest)} (h : word point c rest = .ok w) : w.Longest point := by
  intro v hp hs
  obtain ⟨kind, text, chars, hv⟩ := v
  cases hv with
  | name hb hk hl hm =>
    obtain ⟨rfl, hmore⟩ := List.cons_prefix_cons.1 hs
    have := longest_name hb hk hl hm hmore h
    simp
    omega
  | string hq hn =>
    obtain ⟨rfl, hmore⟩ := List.cons_prefix_cons.1 hs
    have := longest_string hq hn hmore h
    simp
    omega
  | @integer sign digits hg hn hd =>
    have hp (ht : point = true) : sign = [] ∧ ([] : List Char) = [] := by
      refine ⟨?_, rfl⟩
      rcases hg with rfl | rfl
      · rfl
      · exact absurd ((hp ht).2 rfl '-' (by simp)) (by decide)
    have hs : sign ++ digits ++ [] <+: c :: rest := by simpa using hs
    have := longest_number hg hn hd hp (.inl rfl) hs h
    simpa using this
  | float hg hn hd hf hfd =>
    exact longest_number hg hn hd (fun ht => absurd rfl (hp ht).1) (.inr ⟨_, rfl, hf, hfd⟩) hs h
  | operator ho =>
    have hsort : operators.Pairwise fun a b => b.1.toList.length ≤ a.1.toList.length := by decide
    obtain ⟨w', hw, ho'⟩ := word_operator ho hs point
    rw [h] at hw
    cases hw
    exact longest_operator hsort ho operators_pos hs ho'

/-- `w` is the word at the beginning of a source that goes on with `rest`: the longest that can be
written there. -/
structure Takes (point : Bool) (w : Spelling) (rest : List Char) : Prop where
  follows : point = true → w.FollowsPoint
  longest : ∀ v : Spelling, (point = true → v.FollowsPoint) → v.chars <+: w.chars ++ rest →
    v.chars.length ≤ w.chars.length

/-- What is read as a word: the longest word that is written there. -/
theorem word_eq_ok {w : Word (c :: rest)} (h : word point c rest = .ok w) :
    ∃ v : Spelling, w.lexeme = ⟨v.kind, v.text.toList, c :: rest, false⟩ ∧
      c :: rest = v.chars ++ w.rest ∧ Takes point v w.rest := by
  obtain ⟨v, hl, hs, hp⟩ := spelled_word h
  refine ⟨v, hl, hs, hp, fun u hu hpre => ?_⟩
  have hlen := longest_word h u hu (hs ▸ hpre)
  have hsplit := congrArg List.length hs
  rw [List.length_append] at hsplit
  omega

end Lexer

end Liquid
