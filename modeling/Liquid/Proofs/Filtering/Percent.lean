import Liquid.Filter.Text

/-!
# Percent escapes

A text as it stands in a URL, and back.  Reading goes through the text run by run: a run of ASCII
characters stands for bytes, of which every escape is one, and the bytes are those of a text in
UTF-8.  All other characters stand for themselves.

**Reading.** `Stands t s` says that `t` stands for `s`, run by run.  Reading gives the text that is
stood for.  It fails where a percent sign begins no escape and where the bytes of a run are not
those of a text, and nowhere else.

* `Utf8.decode_eq_ok_iff`, `Utf8.encode_eq`: the reader of UTF-8 takes exactly what the core library
  writes for a text.
* `decodeRuns_run`, `decodeRuns_other`: one run, and the character behind it.
* `stands_or_bad`: there is no third way.
* `decode_eq_ok_iff`, `decode_eq_error_iff`: what is read, and what is not.
* `encode_spec`, `stands_encode`: what is written, and that it stands for the text.
* `urlDecode_answers`: the whole, for the two filters.
-/
namespace Liquid.Text

/-! ## UTF-8 -/

namespace Utf8

theorem toNat_ofNat {n : Nat} (h : n < 0xd800 ∨ 0xdfff < n ∧ n < 0x110000) :
    (Char.ofNat n).toNat = n := by
  rw [Char.ofNat, dif_pos h]
  rfl

/-- What the second byte of a character may be. -/
theorem isSecond_iff {b b₁ : Nat} :
    isSecond b b₁ = true ↔ (0x80 ≤ b₁ ∧ b₁ < 0xc0) ∧ (b = 0xe0 → 0xa0 ≤ b₁) ∧
      (b = 0xed → b₁ < 0xa0) ∧ (b = 0xf0 → 0x90 ≤ b₁) ∧ (b = 0xf4 → b₁ < 0x90) := by
  unfold isSecond isContinuation
  simp only [Bool.and_eq_true, decide_eq_true_eq]
  refine and_congr_right fun _ => ?_
  repeat' split
  all_goals simp; omega

/-- A character that was read is written as the bytes that were read for it. -/
theorem encode_of_map (bytes : List Nat) {n : Nat} {rest : List Nat} {r : Except Fault (List Char)}
    {s : List Char} (h : (Char.ofNat n :: ·) <$> r = .ok s)
    (hr : ∀ {s : List Char}, r = .ok s → encode s = rest)
    (hn : encodeChar (Char.ofNat n) = bytes) : encode s = bytes ++ rest := by
  cases r with
  | error f => cases h
  | ok t =>
    cases h
    rw [encode, List.flatMap_cons, hn, ← encode, hr rfl]

theorem encode_of_decode {bytes : List Nat} {s : List Char} (h : decode bytes = .ok s) :
    encode s = bytes := by
  fun_induction decode bytes generalizing s
  case case1 =>
    cases h
    rfl
  case case2 b rest hb ih =>
    refine encode_of_map [b] h ih ?_
    simp only [encodeChar, toNat_ofNat (n := b) (by omega)]
    rw [if_pos hb]
  case case5 b hb hb' hb'' b₁ rest hs ih =>
    rw [isSecond_iff] at hs
    refine encode_of_map [b, b₁] h ih ?_
    simp only [encodeChar, toNat_ofNat (n := (b - 192) * 64 + (b₁ - 128)) (by omega)]
    rw [if_neg (by omega), if_pos (by omega)]
    simp only [List.cons.injEq, and_true]
    omega
  case case9 b _ _ _ _ b₁ b₂ rest hs ih =>
    simp only [Bool.and_eq_true, isSecond_iff, isContinuation, decide_eq_true_eq] at hs
    refine encode_of_map [b, b₁, b₂] h ih ?_
    simp only [encodeChar,
      toNat_ofNat (n := (b - 224) * 4096 + (b₁ - 128) * 64 + (b₂ - 128)) (by omega)]
    rw [if_neg (by omega), if_neg (by omega), if_pos (by omega)]
    simp only [List.cons.injEq, and_true]
    omega
  case case14 b _ _ _ _ _ b₁ b₂ b₃ rest hs ih =>
    simp only [Bool.and_eq_true, isSecond_iff, isContinuation, decide_eq_true_eq] at hs
    refine encode_of_map [b, b₁, b₂, b₃] h ih ?_
    simp only [encodeChar, toNat_ofNat
      (n := (b - 240) * 262144 + (b₁ - 128) * 4096 + (b₂ - 128) * 64 + (b₃ - 128)) (by omega)]
    rw [if_neg (by omega), if_neg (by omega), if_neg (by omega)]
    simp only [List.cons.injEq, and_true]
    omega
  all_goals cases h

theorem decode_eq_ok_iff {bytes : List Nat} {s : List Char} :
    decode bytes = .ok s ↔ encode s = bytes :=
  ⟨encode_of_decode, fun h => h ▸ decode_encode s⟩

theorem encodeChar_eq (c : Char) :
    encodeChar c = (String.utf8EncodeChar c).map UInt8.toNat := by
  have hv : c.toNat < 0xd800 ∨ 0xdfff < c.toNat ∧ c.toNat < 0x110000 := toNat_valid c
  have hc : c.val.toNat = c.toNat := rfl
  simp only [encodeChar, String.utf8EncodeChar, hc]
  generalize c.toNat = n at hv ⊢
  have hbyte {m : Nat} (hm : m < 256) : (UInt8.ofNat m).toNat = m := UInt8.toNat_ofNat_of_lt hm
  obtain h | h | h | h : n < 0x80 ∨ (0x80 ≤ n ∧ n < 0x800) ∨ (0x800 ≤ n ∧ n < 0x10000) ∨
      0x10000 ≤ n := by omega
  · rw [if_pos h, if_pos (show n ≤ 0x7f by omega), List.map_singleton, hbyte (by omega)]
  · rw [if_neg (show ¬n < 0x80 by omega), if_pos h.2, if_neg (show ¬n ≤ 0x7f by omega),
      if_pos (show n ≤ 0x7ff by omega)]
    simp only [List.map_cons, List.map_nil, List.cons.injEq, and_true]
    rw [hbyte (by omega), hbyte (by omega)]
    omega
  · rw [if_neg (show ¬n < 0x80 by omega), if_neg (show ¬n < 0x800 by omega), if_pos h.2,
      if_neg (show ¬n ≤ 0x7f by omega), if_neg (show ¬n ≤ 0x7ff by omega),
      if_pos (show n ≤ 0xffff by omega)]
    simp only [List.map_cons, List.map_nil, List.cons.injEq, and_true]
    rw [hbyte (by omega), hbyte (by omega), hbyte (by omega)]
    omega
  · rw [if_neg (show ¬n < 0x80 by omega), if_neg (show ¬n < 0x800 by omega),
      if_neg (show ¬n < 0x10000 by omega), if_neg (show ¬n ≤ 0x7f by omega),
      if_neg (show ¬n ≤ 0x7ff by omega), if_neg (show ¬n ≤ 0xffff by omega)]
    simp only [List.map_cons, List.map_nil, List.cons.injEq, and_true]
    rw [hbyte (by omega), hbyte (by omega), hbyte (by omega), hbyte (by omega)]
    omega

/-- The bytes of a text are those of the core library. -/
theorem encode_eq (s : List Char) :
    encode s = (s.flatMap String.utf8EncodeChar).map UInt8.toNat := by
  simp only [encode, List.map_flatMap, ← encodeChar_eq]

end Utf8

namespace Percent

/-! ## Runs of ASCII characters -/

/-- Hexadecimal digits. -/
def IsHex (c : Char) : Prop := c ∈ "0123456789abcdefABCDEF".toList

/-- The bytes that a run of ASCII characters stands for: an escape is the byte with its two digits,
and every other character but the percent sign is the byte of its code. -/
inductive Bytes : List Char → List Nat → Prop
  | nil : Bytes [] []
  | escape {a b : Char} {x y : Nat} {rest : List Char} {bs : List Nat} (ha : hexValue? a = some x)
      (hb : hexValue? b = some y) (h : Bytes rest bs) :
      Bytes ('%' :: a :: b :: rest) ((16 * x + y) :: bs)
  | plain {c : Char} {rest : List Char} {bs : List Nat} (hc : c ≠ '%') (h : Bytes rest bs) :
      Bytes (c :: rest) (c.toNat :: bs)

/-- The bytes are the UTF-8 form of a text. -/
def IsForm (bs : List Nat) (s : List Char) : Prop :=
  bs = (s.flatMap String.utf8EncodeChar).map UInt8.toNat

/-- Whether a character is beyond ASCII. -/
def isOther (c : Char) : Bool := decide (128 ≤ c.toNat)

/-- A text stands for another: each of its runs of ASCII characters for the text in whose form the
bytes are, and the characters between the runs for themselves. -/
inductive Stands : List Char → List Char → Prop
  | last {run s : List Char} {bs : List Nat} (hrun : ∀ c ∈ run, isOther c = false)
      (hb : Bytes run bs) (hs : IsForm bs s) : Stands run s
  | more {run s rest t : List Char} {bs : List Nat} {c : Char}
      (hrun : ∀ c ∈ run, isOther c = false) (hb : Bytes run bs) (hs : IsForm bs s)
      (hc : isOther c = true) (h : Stands rest t) : Stands (run ++ c :: rest) (s ++ c :: t)

/-- A percent sign is not followed by two hexadecimal digits. -/
def HasStray (t : List Char) : Prop :=
  ∃ before after, t = before ++ '%' :: after ∧
    ¬∃ a b rest, after = a :: b :: rest ∧ IsHex a ∧ IsHex b

/-- A maximal run of ASCII characters stands for bytes that are not the form of a text. -/
def HasBadRun (t : List Char) : Prop :=
  ∃ run ∈ t.splitOnP isOther, ∃ bs, Bytes run bs ∧ ¬∃ s, IsForm bs s

theorem toNat_lt_of_hexValue? {c : Char} (h : (hexValue? c).isSome = true) : c.toNat < 128 := by
  unfold hexValue? at h
  simp only [Char.isDigit, Bool.and_eq_true, decide_eq_true_eq, ge_iff_le, Char.le_def,
    UInt32.le_iff_toNat_le] at h
  have hc : c.val.toNat = c.toNat := rfl
  have hbounds : '9'.val.toNat = 57 ∧ 'f'.val.toNat = 102 ∧ 'F'.val.toNat = 70 := by decide
  split at h
  · omega
  · split at h
    · omega
    · split at h
      · omega
      · cases h

theorem isSome_hexValue?_iff (c : Char) : (hexValue? c).isSome = true ↔ IsHex c := by
  have hascii : ∀ n < 128, (hexValue? (Char.ofNat n)).isSome = true → IsHex (Char.ofNat n) := by
    unfold IsHex
    decide
  constructor
  · intro h
    have hc := hascii c.toNat (toNat_lt_of_hexValue? h)
    rw [Char.ofNat_toNat] at hc
    exact hc h
  · have hall : "0123456789abcdefABCDEF".toList.all (fun c => (hexValue? c).isSome) = true := rfl
    exact List.all_eq_true.1 hall c

theorem isOther_of_isHex {c : Char} (h : IsHex c) : isOther c = false := by
  have hall : "0123456789abcdefABCDEF".toList.all (fun c => !isOther c) = true := rfl
  simpa using List.all_eq_true.1 hall c h

theorem startsWithHex_iff {s : List Char} :
    startsWithHex s = true ↔ ∃ a b rest, s = a :: b :: rest ∧ IsHex a ∧ IsHex b := by
  unfold startsWithHex
  split
  · rename_i a b rest
    simp only [Bool.and_eq_true, isSome_hexValue?_iff]
    constructor
    · exact fun h => ⟨a, b, rest, rfl, h⟩
    · rintro ⟨_, _, _, ⟨⟩, h⟩
      exact h
  · rename_i h
    simp only [Bool.false_eq_true, false_iff]
    rintro ⟨a, b, rest, rfl, -⟩
    exact h a b rest rfl

/-- A stray percent sign stands at the beginning of a text or behind it. -/
theorem hasStray_cons {c : Char} {rest : List Char} :
    HasStray (c :: rest) ↔ (c = '%' ∧ startsWithHex rest = false) ∨ HasStray rest := by
  rw [← Bool.not_eq_true, startsWithHex_iff]
  constructor
  · rintro ⟨before, after, h, hstray⟩
    cases before with
    | nil =>
      obtain ⟨rfl, rfl⟩ := List.cons.inj h
      exact .inl ⟨rfl, hstray⟩
    | cons d before => exact .inr ⟨before, after, (List.cons.inj h).2, hstray⟩
  · rintro (⟨rfl, hstray⟩ | ⟨before, after, rfl, hstray⟩)
    · exact ⟨[], rest, rfl, hstray⟩
    · exact ⟨c :: before, after, rfl, hstray⟩

theorem not_hasStray_nil : ¬HasStray [] := by
  rintro ⟨before, after, h, -⟩
  cases before <;> cases h

theorem malformed?_eq_none_iff {t : List Char} (position : Nat) :
    malformed? position t = none ↔ ¬HasStray t := by
  induction t generalizing position with
  | nil => simp [malformed?, not_hasStray_nil]
  | cons c rest ih =>
    rw [malformed?, hasStray_cons, not_or]
    split
    next h => simp [h]
    next h => rw [ih, and_iff_right h]

/-! ## Reading run by run -/

/-- The two digits of an escape belong to the run of its percent sign. -/
theorem exists_digits {run rest : List Char} (hrest : ∀ c ∈ rest.head?, isOther c = true)
    (h : startsWithHex (run ++ rest) = true) :
    ∃ a b x y run', run = a :: b :: run' ∧ hexValue? a = some x ∧ hexValue? b = some y := by
  obtain ⟨a, b, after, hafter, ha, hb⟩ := startsWithHex_iff.1 h
  have hother {c : Char} (hc : IsHex c) (tail : List Char) : rest ≠ c :: tail := by
    rintro rfl
    simp [isOther_of_isHex hc] at hrest
  match run with
  | [] => exact absurd hafter (hother ha _)
  | [d] => exact absurd (List.cons.inj hafter).2 (hother hb _)
  | d :: e :: run' =>
    obtain ⟨rfl, htail⟩ := List.cons.inj hafter
    obtain ⟨rfl, -⟩ := List.cons.inj htail
    obtain ⟨x, hx⟩ := Option.isSome_iff_exists.1 ((isSome_hexValue?_iff _).2 ha)
    obtain ⟨y, hy⟩ := Option.isSome_iff_exists.1 ((isSome_hexValue?_iff _).2 hb)
    exact ⟨_, _, x, y, run', rfl, hx, hy⟩

/-- In a text without a stray percent sign every run of ASCII characters stands for bytes. -/
theorem exists_bytes (run rest : List Char) (hrun : ∀ c ∈ run, isOther c = false)
    (hrest : ∀ c ∈ rest.head?, isOther c = true) (h : ¬HasStray (run ++ rest)) :
    ∃ bs, Bytes run bs := by
  match run with
  | [] => exact ⟨[], .nil⟩
  | c :: run =>
    rw [List.cons_append, hasStray_cons, not_or] at h
    obtain ⟨hc, htail⟩ := List.forall_mem_cons.1 hrun
    by_cases hpercent : c = '%'
    · subst hpercent
      obtain ⟨a, b, x, y, run', rfl, hx, hy⟩ := exists_digits hrest (by simpa using h.1)
      have hstray : ¬HasStray (run' ++ rest) := by
        have h' := h.2
        simp only [List.cons_append, hasStray_cons, not_or] at h'
        exact h'.2.2
      obtain ⟨bs, hbs⟩ :=
        exists_bytes run' rest (fun c hc => htail c (.tail _ (.tail _ hc))) hrest hstray
      exact ⟨(16 * x + y) :: bs, .escape hx hy hbs⟩
    · obtain ⟨bs, hbs⟩ := exists_bytes run rest htail hrest h.2
      exact ⟨c.toNat :: bs, .plain hpercent hbs⟩
termination_by run.length

theorem decodeRuns_run {run : List Char} {bs : List Nat} (hb : Bytes run bs)
    (hrun : ∀ c ∈ run, isOther c = false) (bytes : List Nat) (rest : List Char) :
    decodeRuns bytes (run ++ rest) = decodeRuns (bs.reverse ++ bytes) rest := by
  induction hb generalizing bytes with
  | nil => rfl
  | @escape a b x y run bs ha hb _ ih =>
    simp only [List.cons_append, decodeRuns, ha, hb, List.reverse_cons, List.append_assoc,
      List.nil_append]
    exact ih (fun c hc => hrun c (.tail _ (.tail _ (.tail _ hc)))) _
  | @plain c run bs hc _ ih =>
    obtain ⟨hascii, htail⟩ := List.forall_mem_cons.1 hrun
    have hlt : c.toNat < 128 := by simpa [isOther] using hascii
    rw [List.cons_append, decodeRuns, if_pos hlt, ih htail, List.reverse_cons, List.append_assoc]
    · rfl
    · rintro _ _ _ rfl
      exact absurd rfl hc

theorem decodeRuns_other {c : Char} (hc : isOther c = true) (bytes : List Nat) (rest : List Char) :
    decodeRuns bytes (c :: rest) = do
      let before ← Utf8.decode bytes.reverse
      let after ← decodeRuns [] rest
      return before ++ c :: after := by
  have hlt : ¬c.toNat < 128 := by simpa [isOther] using hc
  rw [decodeRuns, if_neg hlt]
  rintro _ _ _ rfl
  cases hc

theorem decodeRuns_last {run : List Char} {bs : List Nat} (hb : Bytes run bs)
    (hrun : ∀ c ∈ run, isOther c = false) : decodeRuns [] run = Utf8.decode bs := by
  have h := decodeRuns_run hb hrun [] []
  rwa [List.append_nil, List.append_nil, decodeRuns, List.reverse_reverse] at h

theorem decodeRuns_more {run rest : List Char} {c : Char} {bs : List Nat} (hb : Bytes run bs)
    (hrun : ∀ c ∈ run, isOther c = false) (hc : isOther c = true) :
    decodeRuns [] (run ++ c :: rest) = do
      let before ← Utf8.decode bs
      let after ← decodeRuns [] rest
      return before ++ c :: after := by
  rw [decodeRuns_run hb hrun, decodeRuns_other hc, List.append_nil, List.reverse_reverse]

/-- Texts by their runs: what holds of a run, and of a run before another character if it holds of
the text behind that, holds of every text. -/
theorem run_induction {p : List Char → Prop}
    (last : ∀ run, (∀ c ∈ run, isOther c = false) → p run)
    (more : ∀ run c rest, (∀ c ∈ run, isOther c = false) → isOther c = true → p rest →
      p (run ++ c :: rest)) (t : List Char) : p t := by
  suffices h : ∀ run, (∀ c ∈ run, isOther c = false) → p (run ++ t) from h [] (by simp)
  induction t with
  | nil =>
    intro run hrun
    rw [List.append_nil]
    exact last run hrun
  | cons c t ih =>
    intro run hrun
    cases hc : isOther c with
    | true => exact more run c t hrun hc (ih [] (by simp))
    | false =>
      rw [List.append_cons]
      refine ih (run ++ [c]) fun d hd => ?_
      obtain hd | rfl := List.mem_append.1 hd |>.imp_right List.mem_singleton.1
      · exact hrun d hd
      · exact hc

theorem isForm_iff {bs : List Nat} {s : List Char} : IsForm bs s ↔ Utf8.decode bs = .ok s := by
  rw [Utf8.decode_eq_ok_iff, Utf8.encode_eq]
  exact eq_comm

theorem Bytes.unique {run : List Char} {bs cs : List Nat} (h : Bytes run bs) (h' : Bytes run cs) :
    bs = cs := by
  induction h generalizing cs with
  | nil =>
    cases h'
    rfl
  | escape ha hb _ ih =>
    cases h' with
    | escape ha' hb' h' =>
      rw [ha, Option.some.injEq] at ha'
      rw [hb, Option.some.injEq] at hb'
      rw [ha', hb', ih h']
    | plain hc => exact absurd rfl hc
  | plain hc _ ih =>
    cases h' with
    | escape => exact absurd rfl hc
    | plain _ h' => rw [ih h']

theorem Bytes.not_hasStray {run : List Char} {bs : List Nat} (h : Bytes run bs) {rest : List Char}
    (hrest : ¬HasStray rest) : ¬HasStray (run ++ rest) := by
  have hdigit {c : Char} {x : Nat} (hx : hexValue? c = some x) : IsHex c :=
    (isSome_hexValue?_iff c).1 (by rw [hx]; rfl)
  induction h with
  | nil => exact hrest
  | @escape a b x y run bs ha hb _ ih =>
    have hhex : startsWithHex (a :: b :: (run ++ rest)) = true :=
      startsWithHex_iff.2 ⟨a, b, _, rfl, hdigit ha, hdigit hb⟩
    have hne {c : Char} (hc : IsHex c) : c ≠ '%' := by
      rintro rfl
      revert hc
      unfold IsHex
      decide
    simp only [List.cons_append, hasStray_cons, hhex, hne (hdigit ha), hne (hdigit hb), ih]
    simp
  | plain hc _ ih => simp only [List.cons_append, hasStray_cons, hc, ih, false_and, or_self,
      not_false_eq_true]

theorem not_hasStray_append {t rest : List Char} (h : ¬HasStray (t ++ rest)) : ¬HasStray rest := by
  rintro ⟨before, after, rfl, hstray⟩
  exact h ⟨t ++ before, after, (List.append_assoc ..).symm, hstray⟩

theorem not_hasStray_other {c : Char} (hc : isOther c = true) {rest : List Char}
    (h : ¬HasStray rest) : ¬HasStray (c :: rest) := by
  rw [hasStray_cons, not_or]
  refine ⟨?_, h⟩
  rintro ⟨rfl, -⟩
  cases hc

theorem splitOnP_last {run : List Char} (hrun : ∀ c ∈ run, isOther c = false) :
    run.splitOnP isOther = [run] :=
  List.splitOnP_eq_singleton hrun

/-- The runs of a text that begins with a run. -/
theorem splitOnP_run {run rest : List Char} {c : Char} (hrun : ∀ c ∈ run, isOther c = false)
    (hc : isOther c = true) :
    (run ++ c :: rest).splitOnP isOther = run :: rest.splitOnP isOther :=
  List.splitOnP_append_cons_of_forall_mem hrun c hc rest

/-! ## What is read -/

theorem Stands.not_hasStray {t s : List Char} (h : Stands t s) : ¬HasStray t := by
  induction h with
  | last _ hb =>
    have hrun := hb.not_hasStray not_hasStray_nil
    rwa [List.append_nil] at hrun
  | more _ hb _ hc _ ih => exact hb.not_hasStray (not_hasStray_other hc ih)

theorem Stands.not_hasBadRun {t s : List Char} (h : Stands t s) : ¬HasBadRun t := by
  induction h with
  | last hrun hb hs =>
    rintro ⟨run, hmem, bs, hbs, hbad⟩
    rw [splitOnP_last hrun, List.mem_singleton] at hmem
    subst hmem
    exact hbad ⟨_, hb.unique hbs ▸ hs⟩
  | more hrun hb hs hc _ ih =>
    rintro ⟨run, hmem, bs, hbs, hbad⟩
    rw [splitOnP_run hrun hc, List.mem_cons] at hmem
    obtain rfl | hmem := hmem
    · exact hbad ⟨_, hb.unique hbs ▸ hs⟩
    · exact ih ⟨run, hmem, bs, hbs, hbad⟩

theorem decodeRuns_of_stands {t s : List Char} (h : Stands t s) : decodeRuns [] t = .ok s := by
  induction h with
  | last hrun hb hs =>
    rw [decodeRuns_last hb hrun]
    exact isForm_iff.1 hs
  | more hrun hb hs hc _ ih =>
    rw [decodeRuns_more hb hrun hc, isForm_iff.1 hs, ih]
    rfl

/-- A run that is not the form of a text is not read. -/
theorem exists_error {bs : List Nat} (h : ¬∃ s, IsForm bs s) : ∃ f, Utf8.decode bs = .error f := by
  cases hbs : Utf8.decode bs with
  | error f => exact ⟨f, rfl⟩
  | ok s => exact absurd ⟨s, isForm_iff.2 hbs⟩ h

/-- A text without a stray percent sign stands for a text, or one of its runs is bad and it is not
read. -/
theorem stands_or_bad {t : List Char} (h : ¬HasStray t) :
    (∃ s, Stands t s) ∨ (∃ f, decodeRuns [] t = .error f) ∧ HasBadRun t := by
  induction t using run_induction with
  | last run hrun =>
    obtain ⟨bs, hb⟩ := exists_bytes run [] hrun (by simp) (by rwa [List.append_nil])
    by_cases hs : ∃ s, IsForm bs s
    · exact .inl (hs.imp fun s hs => .last hrun hb hs)
    · refine .inr ⟨?_, run, by rw [splitOnP_last hrun]; exact .head _, bs, hb, hs⟩
      rw [decodeRuns_last hb hrun]
      exact exists_error hs
  | more run c rest hrun hc ih =>
    obtain ⟨bs, hb⟩ := exists_bytes run (c :: rest) hrun (by simpa using hc) h
    by_cases hs : ∃ s, IsForm bs s
    · obtain ⟨s, hs⟩ := hs
      have hrest : ¬HasStray rest := fun hstray =>
        not_hasStray_append h (hasStray_cons.2 (.inr hstray))
      obtain ⟨t, ht⟩ | ⟨⟨f, hf⟩, bad, hbad, hform⟩ := ih hrest
      · exact .inl ⟨_, .more hrun hb hs hc ht⟩
      · refine .inr ⟨⟨f, ?_⟩, bad, by rw [splitOnP_run hrun hc]; exact .tail _ hbad, hform⟩
        rw [decodeRuns_more hb hrun hc, isForm_iff.1 hs, hf]
        rfl
    · obtain ⟨f, hf⟩ := exists_error hs
      refine .inr ⟨⟨f, ?_⟩, run, by rw [splitOnP_run hrun hc]; exact .head _, bs, hb, hs⟩
      rw [decodeRuns_more hb hrun hc, hf]
      rfl

theorem decode_eq_ok_iff {t s : List Char} : decode t = .ok s ↔ Stands t s := by
  unfold decode
  cases h : malformed? 0 t with
  | some at_ =>
    refine ⟨nofun, fun hs => ?_⟩
    rw [(malformed?_eq_none_iff 0).2 hs.not_hasStray] at h
    cases h
  | none =>
    rw [malformed?_eq_none_iff] at h
    constructor
    · intro hs
      obtain ⟨s', hs'⟩ | ⟨⟨f, hf⟩, -⟩ := stands_or_bad h
      · rw [decodeRuns_of_stands hs'] at hs
        cases hs
        exact hs'
      · rw [hf] at hs
        cases hs
    · intro hs
      rw [decodeRuns_of_stands hs]
      rfl

theorem decode_eq_error_iff {t : List Char} :
    (∃ f, decode t = .error f) ↔ HasStray t ∨ HasBadRun t := by
  constructor
  · rintro ⟨f, hf⟩
    by_cases hstray : HasStray t
    · exact .inl hstray
    obtain ⟨s, hs⟩ | ⟨-, hbad⟩ := stands_or_bad hstray
    · rw [decode_eq_ok_iff.2 hs] at hf
      cases hf
    · exact .inr hbad
  · intro hbad
    cases h : decode t with
    | error f => exact ⟨f, rfl⟩
    | ok s =>
      have hs := decode_eq_ok_iff.1 h
      exact absurd hbad (not_or.2 ⟨hs.not_hasStray, hs.not_hasBadRun⟩)

/-! ## What is written -/

/-- A text of letters and digits of ASCII, a few signs, and escapes. -/
inductive Escaped : List Char → Prop
  | nil : Escaped []
  | plain {c : Char} {rest : List Char} (hc : c.isAlphanum = true ∨ c ∈ "-_.!~*'()".toList)
      (h : Escaped rest) : Escaped (c :: rest)
  | escape {a b : Char} {rest : List Char} (ha : IsHex a) (hb : IsHex b) (h : Escaped rest) :
      Escaped ('%' :: a :: b :: rest)

theorem Escaped.append {s t : List Char} (hs : Escaped s) (ht : Escaped t) : Escaped (s ++ t) := by
  induction hs with
  | nil => exact ht
  | plain hc _ ih => exact .plain hc ih
  | escape ha hb _ ih => exact .escape ha hb ih

theorem Bytes.append {s t : List Char} {bs cs : List Nat} (hs : Bytes s bs) (ht : Bytes t cs) :
    Bytes (s ++ t) (bs ++ cs) := by
  induction hs with
  | nil => exact ht
  | escape ha hb _ ih => exact .escape ha hb ih
  | plain hc _ ih => exact .plain hc ih

theorem isUnreserved_iff {c : Char} :
    isUnreserved c = true ↔ c.isAlphanum = true ∨ c ∈ "-_.!~*'()".toList := by
  rw [isUnreserved, Bool.or_eq_true, decide_eq_true_eq]
  rfl

theorem toNat_lt_of_isUnreserved {c : Char} (h : isUnreserved c = true) : c.toNat < 128 := by
  obtain h | h := isUnreserved_iff.1 h
  · have hc : c.val.toNat = c.toNat := rfl
    have hbounds : '9'.val.toNat = 57 ∧ 'z'.val.toNat = 122 ∧ 'Z'.val.toNat = 90 := by decide
    delta Char.isAlphanum Char.isAlpha Char.isUpper Char.isLower Char.isDigit at h
    simp only [Bool.or_eq_true, Bool.and_eq_true, decide_eq_true_eq, ge_iff_le,
      UInt32.le_iff_toNat_le] at h
    omega
  · have hsigns : "-_.!~*'()".toList.all (fun c => decide (c.toNat < 128)) = true := rfl
    exact of_decide_eq_true (List.all_eq_true.1 hsigns c h)

theorem hexDigit_spec : ∀ n < 16, hexValue? (hexDigit n) = some n ∧ IsHex (hexDigit n) := by
  unfold IsHex
  decide

theorem bytes_escapeByte {b : Nat} (h : b < 256) : Bytes (escapeByte b) [b] := by
  have hbyte := Bytes.escape (hexDigit_spec (b / 16) (by omega)).1
    (hexDigit_spec (b % 16) (by omega)).1 .nil
  rwa [show 16 * (b / 16) + b % 16 = b by omega] at hbyte

theorem escaped_escapeByte {b : Nat} (h : b < 256) : Escaped (escapeByte b) :=
  .escape (hexDigit_spec (b / 16) (by omega)).2 (hexDigit_spec (b % 16) (by omega)).2 .nil

/-- The bytes of a character, each as an escape. -/
theorem escapes (bs : List Nat) (h : ∀ b ∈ bs, b < 256) :
    Escaped (bs.flatMap escapeByte) ∧ Bytes (bs.flatMap escapeByte) bs := by
  induction bs with
  | nil => exact ⟨.nil, .nil⟩
  | cons b bs ih =>
    obtain ⟨hb, htail⟩ := List.forall_mem_cons.1 h
    obtain ⟨hescaped, hbytes⟩ := ih htail
    exact ⟨(escaped_escapeByte hb).append hescaped, (bytes_escapeByte hb).append hbytes⟩

theorem encodeChar_spec (c : Char) :
    Escaped (encodeChar c) ∧ Bytes (encodeChar c) (Utf8.encodeChar c) := by
  unfold encodeChar
  split
  · rename_i h
    have hpercent : c ≠ '%' := by
      rintro rfl
      cases h
    rw [Utf8.encodeChar, if_pos (toNat_lt_of_isUnreserved h)]
    exact ⟨.plain (isUnreserved_iff.1 h) .nil, .plain hpercent .nil⟩
  · refine escapes _ fun b hb => ?_
    rw [Utf8.encodeChar_eq, List.mem_map] at hb
    obtain ⟨b, -, rfl⟩ := hb
    exact b.toNat_lt

/-- Every text is written in the characters allowed in a URL, and so that its bytes come back. -/
theorem encode_spec (s : List Char) : Escaped (encode s) ∧ Bytes (encode s) (Utf8.encode s) := by
  induction s with
  | nil => exact ⟨.nil, .nil⟩
  | cons c s ih =>
    simp only [encode, Utf8.encode, List.flatMap_cons]
    obtain ⟨hescaped, hbytes⟩ := encodeChar_spec c
    exact ⟨hescaped.append ih.1, hbytes.append ih.2⟩

/-- What is written is one run of ASCII characters. -/
theorem Escaped.isOther {s : List Char} (h : Escaped s) : ∀ c ∈ s, isOther c = false := by
  induction h with
  | nil => exact List.forall_mem_nil _
  | plain hc _ ih =>
    have hlt := toNat_lt_of_isUnreserved (isUnreserved_iff.2 hc)
    exact List.forall_mem_cons.2 ⟨decide_eq_false (by omega), ih⟩
  | escape ha hb _ ih =>
    exact List.forall_mem_cons.2 ⟨rfl, List.forall_mem_cons.2 ⟨isOther_of_isHex ha,
      List.forall_mem_cons.2 ⟨isOther_of_isHex hb, ih⟩⟩⟩

theorem stands_encode (s : List Char) : Stands (encode s) s :=
  have ⟨hescaped, hbytes⟩ := encode_spec s
  .last hescaped.isOther hbytes (Utf8.encode_eq s)

end Percent

end Liquid.Text

namespace Liquid.Filter

open Liquid.Text

theorem chars_ofChars (s : List Char) : (Value.ofChars s).chars = s := by
  simp [Value.ofChars, Value.chars, Value.toText]

/-- The filter gives what was decoded, and its failure is that of a filter. -/
theorem urlDecode_ofChars (t : List Char) :
    (∃ s, Percent.decode t = .ok s ∧ urlDecode (.ofChars t) = .ok (.ofChars s)) ∨
      ∃ f e text, Percent.decode t = .error f ∧ urlDecode (.ofChars t) = .error e ∧
        e.failure = .filter text (some "url_decode") := by
  unfold urlDecode
  rw [chars_ofChars]
  cases h : Percent.decode t with
  | ok s => exact .inl ⟨s, rfl, rfl⟩
  | error f =>
    cases f with
    | malformed position found => exact .inr ⟨_, _, _, rfl, rfl, rfl⟩
    | undecodable reason => exact .inr ⟨_, _, _, rfl, rfl, rfl⟩

theorem ofChars_inj {s t : List Char} : Value.ofChars s = Value.ofChars t ↔ s = t := by
  constructor
  · intro h
    have hchars := congrArg Value.chars h
    rwa [chars_ofChars, chars_ofChars] at hchars
  · exact congrArg _

/-- A text is encoded in the characters allowed in a URL, and decoding gives it back.  Decoding
gives the text that is stood for; it fails, as a filter does, where a percent sign begins no escape
or the bytes of a run of ASCII characters are not those of a text, and only there. -/
theorem urlDecode_answers :
    (∀ s, Percent.Escaped (Percent.encode s) ∧
      (onText Percent.encode (.ofChars s) >>= urlDecode) = .ok (.ofChars s)) ∧
    ∀ t, (∀ s, urlDecode (.ofChars t) = .ok (.ofChars s) ↔ Percent.Stands t s) ∧
      ((∃ e, urlDecode (.ofChars t) = .error e) ↔ Percent.HasStray t ∨ Percent.HasBadRun t) ∧
      (∀ e, urlDecode (.ofChars t) = .error e →
        ∃ text, e.failure = .filter text (some "url_decode")) ∧
      ((∃ e, urlDecode (.ofChars t) = .error e) ∨
        ∃ s, urlDecode (.ofChars t) = .ok (.ofChars s)) := by
  have hstands (t s : List Char) :
      urlDecode (.ofChars t) = .ok (.ofChars s) ↔ Percent.Stands t s := by
    rw [← Percent.decode_eq_ok_iff]
    obtain ⟨s', hd, hu⟩ | ⟨f, e, text, hd, hu, -⟩ := urlDecode_ofChars t
    · rw [hd, hu, Except.ok.injEq, Except.ok.injEq, ofChars_inj]
    · rw [hd, hu]
      exact iff_of_false nofun nofun
  refine ⟨fun s => ⟨(Percent.encode_spec s).1, ?_⟩, fun t => ⟨hstands t, ?_, fun e he => ?_, ?_⟩⟩
  · unfold onText
    rw [chars_ofChars]
    exact (hstands _ s).2 (Percent.stands_encode s)
  · rw [← Percent.decode_eq_error_iff]
    obtain ⟨s, hd, hu⟩ | ⟨f, e, text, hd, hu, -⟩ := urlDecode_ofChars t
    · rw [hd, hu]
      exact iff_of_false nofun nofun
    · rw [hd, hu]
      exact iff_of_true ⟨e, rfl⟩ ⟨f, rfl⟩
  · obtain ⟨s, -, hu⟩ | ⟨f, e', text, -, hu, hfailure⟩ := urlDecode_ofChars t
    · rw [hu] at he
      cases he
    · rw [hu] at he
      cases he
      exact ⟨text, hfailure⟩
  · obtain ⟨s, -, hu⟩ | ⟨f, e, text, -, hu, -⟩ := urlDecode_ofChars t
    · exact .inr ⟨s, hu⟩
    · exact .inl ⟨e, hu⟩

end Liquid.Filter
