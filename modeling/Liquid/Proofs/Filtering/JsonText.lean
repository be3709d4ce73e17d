import Mathlib.Data.List.Forall2
import Liquid.Proofs.Comparing.Ordering
import Liquid.Proofs.Comparing.Shortest
import Liquid.Proofs.Filtering.Faults

/-!
# What JSON shows of a value

A value is shown in JSON as a text.  The text of data tells the data, up to what is the same: a
whole number and the float of its size are written in different ways, but what is written in one way
is one value.

**Data.** Nil, truth values, numbers, texts, and lists and mappings of data.  Other values are shown
as their texts are, so a day and its text cannot be told apart.

Each part of the text of data can be told from what is behind it: the escape of a character by its
letters, a text by its quotes, and a number, a truth value or nil by the comma or the bracket behind
it.

* `Json.Escape.unique`, `Json.escapes_unique`: no escape begins another one.
* `Json.eq_of_number`: numbers that are written alike are equal.
* `Json.brackets_unique`: lists of such parts can be told apart.
* `Value.same_of_json`: data that is written alike is the same.
* `Value.entries_match`: mappings that are the same, and in order, match entry by entry.
* `Value.json_of_same`: data that is the same, and in order, is written alike if the numbers in it
  are.
-/
namespace Liquid

open Liquid.Text

/-! ## Hexadecimal digits -/

namespace Text

theorem hexDigit_inj : ∀ m < 16, ∀ n < 16, hexDigit m = hexDigit n → m = n := by decide

theorem length_hex (width n : Nat) : (hex width n).length = width := by
  induction width generalizing n with
  | zero => rfl
  | succ w ih => simp [hex, ih]

theorem hex_inj {width m n : Nat} (hm : m < 16 ^ width) (hn : n < 16 ^ width)
    (h : hex width m = hex width n) : m = n := by
  induction width generalizing m n with
  | zero => omega
  | succ w ih =>
    obtain ⟨hhigh, hlow⟩ := List.append_inj h (by simp [length_hex])
    have hdigit : m % 16 = n % 16 :=
      hexDigit_inj _ (by omega) _ (by omega) (List.cons.inj hlow).1
    have hrest : m / 16 = n / 16 := ih (by omega) (by omega) hhigh
    omega

end Text

namespace Json

/-! ## Texts -/

theorem unitEscape_inj {m n : Nat} {s t : List Char} (hm : m < 0x10000) (hn : n < 0x10000)
    (h : unitEscape m ++ s = unitEscape n ++ t) : m = n ∧ s = t := by
  simp only [unitEscape, List.cons_append, List.cons.injEq, true_and] at h
  obtain ⟨hhex, hrest⟩ := List.append_inj h (by simp [length_hex])
  exact ⟨hex_inj hm hn hhex, hrest⟩

/-- The escapes of a character and a letter. -/
def shorts : List (Char × Char) :=
  [('"', '"'), ('\\', '\\'), ('\n', 'n'), ('\r', 'r'), ('\t', 't'), (Char.ofNat 8, 'b'),
    (Char.ofNat 12, 'f')]

/-- How a character is written: as it is, by a letter, by its number, or by the numbers of two units
that stand for it together. -/
inductive Escape (c : Char) : List Char → Prop
  | plain (hquote : c ≠ '"') (hslash : c ≠ '\\') : Escape c [c]
  | short {e : Char} (h : (c, e) ∈ shorts) : Escape c ['\\', e]
  | unit (h : c.toNat < 0x10000) : Escape c (unitEscape c.toNat)
  | pair (h : 0x10000 ≤ c.toNat) :
      Escape c (unitEscape (0xd800 + (c.toNat - 0x10000) / 0x400) ++
        unitEscape (0xdc00 + (c.toNat - 0x10000) % 0x400))

theorem escape_escapeChar (c : Char) : Escape c (escapeChar true c) := by
  unfold escapeChar
  split
  · rename_i h
    rcases h with rfl | rfl
    · exact .short (by decide)
    · exact .short (by decide)
  rename_i hplain
  rw [not_or] at hplain
  have hof {n : Nat} (h : c.toNat = n) : c = Char.ofNat n := by rw [← h, Char.ofNat_toNat]
  split
  · rename_i h
    subst h
    exact .short (by decide)
  split
  · rename_i h
    subst h
    exact .short (by decide)
  split
  · rename_i h
    subst h
    exact .short (by decide)
  split
  · rename_i h
    rw [hof h]
    exact .short (by decide)
  split
  · rename_i h
    rw [hof h]
    exact .short (by decide)
  split
  · exact .unit (by omega)
  split
  · split
    · exact .unit ‹_›
    · exact .pair (by omega)
  · exact .plain hplain.1 hplain.2

theorem shorts_spec : ∀ p ∈ shorts, p.2 ≠ 'u' ∧ ∀ q ∈ shorts, p.2 = q.2 → p.1 = q.1 := by
  decide

/-- A unit that stands for a character of its own is no part of a pair. -/
theorem not_surrogate (c : Char) {n : Nat} (hn : n < 0x400) : c.toNat ≠ 0xd800 + n := by
  have hvalid := Utf8.toNat_valid c
  omega

/-- No character's escape begins another one's. -/
theorem Escape.unique {c d : Char} {s t x y : List Char} (hc : Escape c s) (hd : Escape d t)
    (h : s ++ x = t ++ y) : c = d ∧ x = y := by
  have hpair (c : Char) : (c.toNat - 0x10000) / 0x400 < 0x400 := by
    have := Utf8.toNat_valid c
    omega
  cases hc with
  | plain _ hslash =>
    cases hd with
    | plain => exact List.cons.inj h
    | short | unit | pair => exact absurd (List.cons.inj h).1 hslash
  | @short e he =>
    cases hd with
    | plain _ hslash => exact absurd (List.cons.inj h).1.symm hslash
    | short hf =>
      obtain ⟨htail, hrest⟩ := List.cons.inj (List.cons.inj h).2
      exact ⟨(shorts_spec _ he).2 _ hf htail, hrest⟩
    | unit | pair => exact absurd (List.cons.inj (List.cons.inj h).2).1 (shorts_spec _ he).1
  | unit hunit =>
    cases hd with
    | plain _ hslash => exact absurd (List.cons.inj h).1.symm hslash
    | short hf => exact absurd (List.cons.inj (List.cons.inj h).2).1.symm (shorts_spec _ hf).1
    | unit hunit' => exact (unitEscape_inj hunit hunit' h).imp_left Char.toNat_inj.1
    | pair =>
      rw [List.append_assoc] at h
      exact absurd (unitEscape_inj hunit (by have := hpair d; omega) h).1
        (not_surrogate c (hpair d))
  | pair hpair' =>
    rw [List.append_assoc] at h
    cases hd with
    | plain _ hslash => exact absurd (List.cons.inj h).1.symm hslash
    | short hf => exact absurd (List.cons.inj (List.cons.inj h).2).1.symm (shorts_spec _ hf).1
    | unit hunit =>
      exact absurd (unitEscape_inj (by have := hpair c; omega) hunit h).1.symm
        (not_surrogate d (hpair c))
    | pair hd' =>
      rw [List.append_assoc] at h
      obtain ⟨hhigh, h⟩ :=
        unitEscape_inj (by have := hpair c; omega) (by have := hpair d; omega) h
      obtain ⟨hlow, hrest⟩ := unitEscape_inj (by omega) (by omega) h
      exact ⟨Char.toNat_inj.1 (by omega), hrest⟩

theorem Escape.head {c : Char} {s : List Char} (h : Escape c s) : ∃ d t, s = d :: t ∧ d ≠ '"' := by
  cases h with
  | plain hquote => exact ⟨_, _, rfl, hquote⟩
  | short | unit | pair => exact ⟨_, _, rfl, by decide⟩

/-- The quote behind a text is the first one that is no part of an escape. -/
theorem escapes_unique {s t x y : List Char}
    (h : s.flatMap (escapeChar true) ++ '"' :: x = t.flatMap (escapeChar true) ++ '"' :: y) :
    s = t ∧ x = y := by
  induction s generalizing t with
  | nil =>
    cases t with
    | nil => exact ⟨rfl, (List.cons.inj h).2⟩
    | cons d t =>
      obtain ⟨e, u, he, hquote⟩ := (escape_escapeChar d).head
      rw [List.flatMap_cons, he] at h
      exact absurd (List.cons.inj h).1.symm hquote
  | cons c s ih =>
    cases t with
    | nil =>
      obtain ⟨e, u, he, hquote⟩ := (escape_escapeChar c).head
      rw [List.flatMap_cons, he] at h
      exact absurd (List.cons.inj h).1 hquote
    | cons d t =>
      rw [List.flatMap_cons, List.flatMap_cons, List.append_assoc, List.append_assoc] at h
      obtain ⟨rfl, hrest⟩ := (escape_escapeChar c).unique (escape_escapeChar d) h
      exact (ih hrest).imp_left (congrArg _)

theorem text_unique {s t : String} {x y : List Char}
    (h : (text true s).toList ++ x = (text true t).toList ++ y) : s = t ∧ x = y := by
  simp only [text, String.toList_ofList, List.cons_append, List.append_assoc, List.cons.injEq,
    true_and, List.nil_append] at h
  exact (escapes_unique h).imp_left String.toList_inj.1

/-! ## Numbers -/

/-- The characters of which numbers are written. -/
def isNumeral (c : Char) : Bool := c.isDigit || "+-.eainftyNI".toList.contains c

/-- Such characters alone. -/
def Numeral (s : List Char) : Prop := ∀ c ∈ s, isNumeral c = true

instance : DecidablePred Numeral := fun s =>
  decidable_of_iff (s.all isNumeral = true) List.all_eq_true

theorem Numeral.append {s t : List Char} (hs : Numeral s) (ht : Numeral t) : Numeral (s ++ t) :=
  List.forall_mem_append.2 ⟨hs, ht⟩

theorem Numeral.of_subset {s t : List Char} (ht : Numeral t) (h : s ⊆ t) : Numeral s :=
  fun c hc => ht c (h hc)

theorem numeral_digits (n : Nat) : Numeral (Decimal.digits n) := fun c hc => by
  simp [isNumeral, Nat.isDigit_of_mem_toDigits (by decide) (by decide) hc]

theorem numeral_floatDigits (d : Decimal) : Numeral d.floatDigits := by
  have hzeros (n : Nat) : Numeral (List.replicate n '0') := fun c hc => by
    rw [List.eq_of_mem_replicate hc]
    rfl
  have htake (n k : Nat) : Numeral ((Decimal.digits n).take k) :=
    (numeral_digits n).of_subset (List.take_subset _ _)
  have hdrop (n k : Nat) : Numeral ('.' :: (Decimal.digits n).drop k) :=
    List.forall_mem_cons.2 ⟨rfl, (numeral_digits n).of_subset (List.drop_subset _ _)⟩
  unfold Decimal.floatDigits
  extract_lets ds point exponent
  have hfraction : Numeral (if ds.length = 1 then [] else '.' :: ds.drop 1) := by
    split
    · exact List.forall_mem_nil _
    · exact hdrop _ 1
  have hsign : Numeral ['e', if point - 1 < 0 then '-' else '+'] := by
    split <;> decide
  have hexponent : Numeral (if exponent < 10 then '0' :: Decimal.digits exponent
      else Decimal.digits exponent) := by
    split
    · exact List.forall_mem_cons.2 ⟨rfl, numeral_digits _⟩
    · exact numeral_digits _
  split
  · decide
  split
  · split
    · exact ((numeral_digits _).append (hzeros _)).append (by decide)
    · split
      · exact (htake _ _).append (hdrop _ _)
      · exact Numeral.append (.append (by decide) (hzeros _)) (numeral_digits _)
  · exact (((htake _ 1).append hfraction).append hsign).append hexponent

theorem numeral_floatText (x : Float) : Numeral (floatText x).toList := by
  unfold floatText
  split
  · rw [String.toList_ofList]
    refine Numeral.append ?_ (numeral_floatDigits _)
    split <;> decide
  · split
    · decide
    · split <;> decide

theorem numeral_number (n : Number) : Numeral (number n).toList := by
  cases n with
  | int n =>
    cases n with
    | ofNat n =>
      simp only [number, toString, Int.repr, Nat.repr, String.toList_ofList]
      exact numeral_digits n
    | negSucc n =>
      simp only [number, toString, Int.repr, Nat.repr, String.toList_append, String.toList_ofList]
      exact Numeral.append (by decide) (numeral_digits _)
  | float x =>
    simp only [number]
    split
    · exact numeral_floatText x
    · split
      · decide
      · split <;> decide

theorem isDigit_repr (n : ℕ) : ∀ c ∈ n.repr.toList, c.isDigit = true := fun c hc => by
  rw [Nat.repr, String.toList_ofList] at hc
  exact Decimal.isDigit_digits n c hc

theorem isDigit_int (n : ℤ) : ∀ c ∈ (toString n).toList, c = '-' ∨ c.isDigit = true := by
  cases n with
  | ofNat n => exact fun c hc => .inr (isDigit_repr n c hc)
  | negSucc n =>
    simp only [toString, Int.repr, String.toList_append]
    exact List.forall_mem_append.2
      ⟨List.forall_mem_singleton.2 (.inl rfl), fun c hc => .inr (isDigit_repr _ c hc)⟩

theorem int_inj {m n : ℤ} (h : toString m = toString n) : m = n := by
  have hrepr {k l : ℕ} (h : k.repr.toList = l.repr.toList) : k = l := by
    rw [Nat.repr, Nat.repr, String.toList_ofList, String.toList_ofList] at h
    rw [← Decimal.run_digits k, ← Decimal.run_digits l]
    exact congrArg Decimal.run h
  have hminus (k : ℕ) (s : List Char) : k.repr.toList ≠ '-' :: s := fun h => by
    have := isDigit_repr k '-' (by simp [h])
    cases this
  have hneg (k : ℕ) : (toString (Int.negSucc k)).toList = '-' :: (k + 1).repr.toList := by
    simp [toString, Int.repr]
  have hchars := congrArg String.toList h
  cases m with
  | ofNat k =>
    cases n with
    | ofNat l => exact congrArg Int.ofNat (hrepr hchars)
    | negSucc l => exact absurd (hchars.trans (hneg l)) (hminus k _)
  | negSucc k =>
    cases n with
    | ofNat l => exact absurd (hchars.symm.trans (hneg k)) (hminus l _)
    | negSucc l =>
      rw [hneg, hneg] at hchars
      exact congrArg Int.negSucc (Nat.succ.inj (hrepr (List.cons.inj hchars).2))

/-- A float is written with a letter or a point. -/
theorem exists_mark_float (x : Float) :
    ∃ c ∈ (number (.float x)).toList, c ≠ '-' ∧ c.isDigit = false := by
  simp only [number]
  split
  · rename_i hfinite
    rw [← Binary.isSome_parts?, Option.isSome_iff_exists] at hfinite
    obtain ⟨p, hp⟩ := hfinite
    simp only [floatText, hp, String.toList_ofList]
    obtain h | h := (Decimal.ofFloat p).exists_mark_floatDigits
    · exact ⟨_, List.mem_append_right _ h, by decide, rfl⟩
    · exact ⟨_, List.mem_append_right _ h, by decide, rfl⟩
  · split
    · exact ⟨'N', by decide, by decide, rfl⟩
    · split
      · exact ⟨'I', by decide, by decide, rfl⟩
      · exact ⟨'I', by decide, by decide, rfl⟩

theorem number_ne_nil (n : Number) : (number n).toList ≠ [] := by
  cases n with
  | int n =>
    cases n with
    | ofNat n => simp [number, toString, Int.repr, Nat.repr, Nat.toDigits_ne_nil]
    | negSucc n => simp [number, toString, Int.repr]
  | float x =>
    obtain ⟨c, hc, -⟩ := exists_mark_float x
    exact List.ne_nil_of_mem hc

/-- How an infinity is written. -/
def infinity (negative : Bool) : String := if negative then "-Infinity" else "Infinity"

theorem number_cases {x : Float} (h : x.isNaN = false) :
    (∃ p, Binary.parts? x = some p ∧ number (.float x) = floatText x) ∨
      Binary.parts? x = none ∧ number (.float x) = infinity (Binary.isNegative x) := by
  simp only [number]
  rw [← Binary.isSome_parts?]
  cases hp : Binary.parts? x with
  | some p => exact .inl ⟨p, rfl, rfl⟩
  | none => exact .inr ⟨rfl, by rw [h]; rfl⟩


theorem floatText_ne_infinity {x : Float} {p : Binary.Parts} (hp : Binary.parts? x = some p)
    (b : Bool) : floatText x ≠ infinity b := by
  intro h
  obtain ⟨c, s, hcs, hc⟩ := (Decimal.ofFloat p).head_floatDigits
  simp only [floatText, hp, hcs] at h
  have htext := congrArg String.toList h
  rw [String.toList_ofList] at htext
  cases hn : p.negative <;> rw [hn] at htext <;> cases b <;>
    cases htext <;> cases hc

/-- Numbers that are written alike are equal. -/
theorem eq_of_number {m n : Number} (hm : m.isNaN = false) (hn : n.isNaN = false)
    (h : number m = number n) : m.eq n = true := by
  have hmixed (k : ℤ) (x : Float) : number (.int k) ≠ number (.float x) := fun h => by
    obtain ⟨c, hc, hminus, hdigit⟩ := exists_mark_float x
    obtain hc' | hc' := isDigit_int k c (by rw [← h] at hc; exact hc)
    · exact hminus hc'
    · rw [hdigit] at hc'
      cases hc'
  cases m with
  | int k =>
    cases n with
    | int l =>
      rw [int_inj h]
      exact Number.eq_iff.2 ⟨_, rfl, rfl⟩
    | float y => exact absurd h (hmixed k y)
  | float x =>
    cases n with
    | int l => exact absurd h.symm (hmixed l x)
    | float y =>
      have hpoint : (Number.float x).point? = (Number.float y).point? := by
        obtain ⟨p, hp, hx⟩ | ⟨hp, hx⟩ := number_cases hm <;>
          obtain ⟨q, hq, hy⟩ | ⟨hq, hy⟩ := number_cases hn <;> rw [hx, hy] at h
        · simp only [Number.point?, Binary.toRat?, hp, hq, Option.map_some,
            parts_eq_of_floatText hp hq h]
        · exact absurd h (floatText_ne_infinity hp _)
        · exact absurd h.symm (floatText_ne_infinity hq _)
        · have hsign : Binary.isNegative x = Binary.isNegative y := by
            revert h
            cases Binary.isNegative x <;> cases Binary.isNegative y <;> decide
          simp only [Number.point?, Binary.toRat?, hp, hq, Option.map_none, hsign]
          rw [show x.isNaN = false from hm, show y.isNaN = false from hn]
      obtain ⟨q, hq⟩ := Number.exists_point hm
      exact Number.eq_iff.2 ⟨q, hq, hpoint ▸ hq⟩

/-! ## What stands between brackets -/

/-- The characters that may stand behind a value. -/
def isClosing (c : Char) : Bool := [',', ']', '\x7d'].contains c

/-- Behind a value there is nothing or a closing character. -/
def Closed (s : List Char) : Prop := ∀ c ∈ s.head?, isClosing c = true

/-- The characters of which a number, a truth value or nil is written. -/
def isBare (c : Char) : Bool := isNumeral c || "truefalsenull".toList.contains c

theorem isClosing_of_isBare {c : Char} (h : isBare c = true) : isClosing c = false := by
  have hclosing : [',', ']', '\x7d'].all (fun c => !isBare c) = true := rfl
  by_contra hc
  rw [Bool.not_eq_false, isClosing, List.contains_iff_mem] at hc
  have hbare := List.all_eq_true.1 hclosing c hc
  rw [h] at hbare
  cases hbare

/-- Where a number, a truth value or nil ends. -/
theorem bare_unique {s t x y : List Char} (hs : ∀ c ∈ s, isBare c = true)
    (ht : ∀ c ∈ t, isBare c = true) (hx : Closed x) (hy : Closed y) (h : s ++ x = t ++ y) :
    s = t ∧ x = y := by
  have hends {c : Char} {s : List Char} (hc : isBare c = true) : ¬Closed (c :: s) := by
    intro hclosed
    have := hclosed c rfl
    rw [isClosing_of_isBare hc] at this
    cases this
  induction s generalizing t with
  | nil =>
    cases t with
    | nil => exact ⟨rfl, h⟩
    | cons d t => exact absurd ((show x = d :: (t ++ y) from h) ▸ hx) (hends (ht d (.head _)))
  | cons c s ih =>
    cases t with
    | nil => exact absurd ((show y = c :: (s ++ x) from h.symm) ▸ hy) (hends (hs c (.head _)))
    | cons d t =>
      obtain ⟨rfl, hrest⟩ := List.cons.inj h
      exact (ih (fun c hc => hs c (.tail _ hc)) (fun c hc => ht c (.tail _ hc)) hrest).imp_left
        (congrArg _)

section

variable {α : Type} {r : α → α → Prop} {shown : α → List Char} {close : Char}

/-- Parts of which each can be told from what is behind it can be told apart between brackets. -/
theorem brackets_unique (hclose : isClosing close = true) (hcomma : close ≠ ',') {xs ys : List α}
    {x y : List Char} (hxs : ∀ a ∈ xs, ∃ c s, shown a = c :: s ∧ isClosing c = false)
    (hys : ∀ b ∈ ys, ∃ c s, shown b = c :: s ∧ isClosing c = false)
    (hunique : ∀ a ∈ xs, ∀ b ∈ ys, ∀ {x y}, Closed x → Closed y → shown a ++ x = shown b ++ y →
      r a b ∧ x = y)
    (h : [',', ' '].intercalate (xs.map shown) ++ close :: x =
      [',', ' '].intercalate (ys.map shown) ++ close :: y) :
    List.Forall₂ r xs ys ∧ x = y := by
  -- What is behind the first part: the bracket, or a comma and the other parts.
  have hbehind (a : α) (xs : List α) (x : List Char) : ∃ z, Closed z ∧
      [',', ' '].intercalate ((a :: xs).map shown) ++ close :: x = shown a ++ z ∧
      (xs = [] ∧ z = close :: x ∨ ∃ b rest, xs = b :: rest ∧
        z = ',' :: ' ' :: ([',', ' '].intercalate (xs.map shown) ++ close :: x)) := by
    cases xs with
    | nil =>
      refine ⟨close :: x, fun c hc => ?_, by simp, .inl ⟨rfl, rfl⟩⟩
      cases hc
      exact hclose
    | cons b xs =>
      refine ⟨_, fun c hc => ?_, ?_, .inr ⟨b, xs, rfl, rfl⟩⟩
      · cases hc
        rfl
      · simp [List.intercalate_cons_cons]
  have hopen {a : α} {z : List Char} (ha : ∃ c s, shown a = c :: s ∧ isClosing c = false)
      (x : List Char) : close :: x ≠ shown a ++ z := by
    obtain ⟨c, s, hc, hclosing⟩ := ha
    rw [hc]
    rintro ⟨⟩
    rw [hclose] at hclosing
    cases hclosing
  induction xs generalizing ys with
  | nil =>
    cases ys with
    | nil => exact ⟨.nil, (List.cons.inj h).2⟩
    | cons b ys =>
      obtain ⟨z, -, hz, -⟩ := hbehind b ys y
      rw [hz] at h
      exact absurd h (hopen (hys b (.head _)) x)
  | cons a xs ih =>
    obtain ⟨z, hzclosed, hz, hxs'⟩ := hbehind a xs x
    cases ys with
    | nil =>
      rw [hz] at h
      exact absurd h.symm (hopen (hxs a (.head _)) y)
    | cons b ys =>
      obtain ⟨w, hwclosed, hw, hys'⟩ := hbehind b ys y
      rw [hz, hw] at h
      obtain ⟨hab, rfl⟩ := hunique a (.head _) b (.head _) hzclosed hwclosed h
      obtain ⟨rfl, hx⟩ | ⟨a', xs', rfl, hx⟩ := hxs' <;>
        obtain ⟨rfl, hy⟩ | ⟨b', ys', rfl, hy⟩ := hys'
      · exact ⟨.cons hab .nil, (List.cons.inj (hx.symm.trans hy)).2⟩
      · exact absurd (List.cons.inj (hx.symm.trans hy)).1 hcomma
      · exact absurd (List.cons.inj (hx.symm.trans hy)).1.symm hcomma
      · obtain ⟨-, htail⟩ := List.cons.inj (hx.symm.trans hy)
        obtain ⟨hrest, hxy⟩ := ih (fun a ha => hxs a (.tail _ ha)) (fun b hb => hys b (.tail _ hb))
          (fun a ha b hb => hunique a (.tail _ ha) b (.tail _ hb)) (List.cons.inj htail).2
        exact ⟨.cons hab hrest, hxy⟩

end

end Json

/-! ## Data -/

/-- Texts in their order; other keys are in none. -/
def Key.Before : Key → Key → Prop
  | .text s, .text t => s < t
  | _, _ => False

theorem Key.Before.asymm {k l : Key} (h : k.Before l) : ¬l.Before k := by
  cases k <;> cases l <;> first | exact absurd h id | exact String.lt_asymm h

theorem Key.Before.trans {k l m : Key} (h : k.Before l) (h' : l.Before m) : k.Before m := by
  cases k <;> cases l <;> first | exact absurd h id | skip
  cases m <;> first | exact absurd h' id | exact String.lt_trans h h'

theorem Key.eq_of_same {k l : Key} {s : String} (hk : k = .text s) (h : k.same l = true) :
    k = l := by
  subst hk
  cases l with
  | text t => rw [show s = t by simpa [same] using h]
  | _ => cases h

namespace Value

/-- Numbers and truth values. -/
def IsLeaf : Value → Prop
  | .bool _ | .number _ => True
  | _ => False

/-- Values that JSON has a form for: nil, truth values, numbers, texts, and lists and mappings of
such values, where the keys of a mapping are texts and stand in a given relation. -/
inductive IsData (r : Key → Key → Prop) : Value → Prop
  | nil : IsData r .nil
  | bool (b : Bool) : IsData r (.bool b)
  | number {n : Number} (hn : n.isNaN = false) : IsData r (.number n)
  | text (s : String) : IsData r (.text s)
  | list {items : List Value} (h : ∀ v ∈ items, IsData r v) : IsData r (.list items)
  | mapping {entries : List (Key × Value)} (htexts : ∀ e ∈ entries, ∃ s, e.1 = .text s)
      (hkeys : (entries.map Prod.fst).Pairwise r) (h : ∀ e ∈ entries, IsData r e.2) :
      IsData r (.mapping entries)

/-- The numbers and truth values inside two values are written alike if they are the same. -/
def LeavesAgree (v w : Value) : Prop :=
  ∀ a b : Value, a.IsLeaf → b.IsLeaf → Has (· = a) v → Has (· = b) w →
    same a b = true → a.json .spaced = b.json .spaced

theorem LeavesAgree.self {v w : Value} (h : LeavesAgree v w) (hv : v.IsLeaf) (hw : w.IsLeaf)
    (hsame : same v w = true) : v.json .spaced = w.json .spaced :=
  h v w hv hw (.self rfl) (.self rfl) hsame

theorem LeavesAgree.of {v w a b : Value} (h : LeavesAgree v w)
    (ha : ∀ P : Value → Prop, Has P a → Has P v) (hb : ∀ P : Value → Prop, Has P b → Has P w) :
    LeavesAgree a b :=
  fun c d hc hd hca hdb => h c d hc hd (ha _ hca) (hb _ hdb)

/-- The characters of a value in JSON. -/
def jsonChars (v : Value) : List Char := (v.json .spaced).toList

/-- The characters of an entry in JSON. -/
def entryChars (e : Key × Value) : List Char :=
  (Json.key true e.1).toList ++ ':' :: ' ' :: jsonChars e.2

theorem jsonChars_list (items : List Value) :
    jsonChars (.list items) = '[' :: ([',', ' '].intercalate (items.map jsonChars) ++ [']']) := by
  have hitems : (jsonItems .spaced items).map String.toList = items.map jsonChars := by
    induction items with
    | nil => rfl
    | cons v items ih => rw [jsonItems, List.map_cons, List.map_cons, ih, jsonChars]
  simp only [jsonChars, json, Json.inBrackets, String.toList_append, String.toList_intercalate,
    hitems]
  rfl

theorem jsonChars_mapping (entries : List (Key × Value)) :
    jsonChars (.mapping entries) =
      '\x7b' :: ([',', ' '].intercalate (entries.map entryChars) ++ ['\x7d']) := by
  have hentries : (jsonEntries .spaced entries).map String.toList = entries.map entryChars := by
    induction entries with
    | nil => rfl
    | cons e entries ih =>
      obtain ⟨k, v⟩ := e
      rw [jsonEntries, List.map_cons, List.map_cons, ih, entryChars, jsonChars]
      simp only [String.toList_append, List.append_assoc]
      rfl
  simp only [jsonChars, json, Json.inBrackets, String.toList_append, String.toList_intercalate,
    hentries]
  rfl

/-- The first character of a collection or a text, which says what it is. -/
def opening? : Value → Option Char
  | .text _ => some '"'
  | .list _ => some '['
  | .mapping _ => some '\x7b'
  | _ => none

theorem jsonChars_bare {r : Key → Key → Prop} {v : Value} (hv : IsData r v)
    (h : v.opening? = none) : v.jsonChars ≠ [] ∧ ∀ c ∈ v.jsonChars, Json.isBare c = true := by
  cases hv with
  | nil => exact ⟨by decide, List.all_eq_true.1 rfl⟩
  | bool b => cases b <;> exact ⟨by decide, List.all_eq_true.1 rfl⟩
  | number =>
    refine ⟨Json.number_ne_nil _, fun c hc => ?_⟩
    simp [Json.isBare, Json.numeral_number _ c hc]
  | text | list | mapping => cases h

theorem jsonChars_opening {v : Value} {c : Char} (h : v.opening? = some c) :
    ∃ s, v.jsonChars = c :: s := by
  cases v with
  | text s =>
    cases h
    exact ⟨_, String.toList_ofList⟩
  | list items =>
    cases h
    exact ⟨_, jsonChars_list items⟩
  | mapping entries =>
    cases h
    exact ⟨_, jsonChars_mapping entries⟩
  | _ => cases h

/-- The first character of a value, and what it says. -/
theorem jsonChars_head {r : Key → Key → Prop} {v : Value} (hv : IsData r v) :
    ∃ c s, v.jsonChars = c :: s ∧ Json.isClosing c = false ∧
      v.opening? = if Json.isBare c then none else some c := by
  cases hopening : v.opening? with
  | none =>
    obtain ⟨hne, hbare⟩ := jsonChars_bare hv hopening
    obtain ⟨c, s, hc⟩ := List.exists_cons_of_ne_nil hne
    have hcbare : Json.isBare c = true := hbare c (by simp [hc])
    exact ⟨c, s, hc, Json.isClosing_of_isBare hcbare, by simp [hcbare]⟩
  | some c =>
    obtain ⟨s, hc⟩ := jsonChars_opening hopening
    have hchars : Json.isClosing c = false ∧ Json.isBare c = false := by
      cases v <;> cases hopening <;> decide
    exact ⟨c, s, hc, hchars.1, by simp [hchars.2]⟩

theorem opening?_eq {r : Key → Key → Prop} {v w : Value} (hv : IsData r v) (hw : IsData r w)
    {x y : List Char} (h : v.jsonChars ++ x = w.jsonChars ++ y) : v.opening? = w.opening? := by
  obtain ⟨c, s, hc, -, hopening⟩ := jsonChars_head hv
  obtain ⟨d, t, hd, -, hopening'⟩ := jsonChars_head hw
  rw [hc, hd] at h
  rw [hopening, hopening', (List.cons.inj h).1]

/-- Values without an opening character. -/
theorem same_of_bare {r : Key → Key → Prop} {v w : Value} (hv : IsData r v) (hw : IsData r w)
    (hopening : v.opening? = none) (hopening' : w.opening? = none)
    {x y : List Char} (hx : Json.Closed x) (hy : Json.Closed y)
    (h : v.jsonChars ++ x = w.jsonChars ++ y) : same v w = true ∧ x = y := by
  obtain ⟨hchars, hxy⟩ := Json.bare_unique (jsonChars_bare hv hopening).2
    (jsonChars_bare hw hopening').2 hx hy h
  refine ⟨?_, hxy⟩
  -- In the words there are letters that are in no number.
  have hword {s : String} (hs : ¬Json.Numeral s.toList) (n : Number) :
      s.toList ≠ (Json.number n).toList := fun h => hs (h ▸ Json.numeral_number n)
  have hbool (b : Bool) : ¬Json.Numeral (Json.bool b).toList := by cases b <;> decide
  cases hv with
  | nil =>
    cases hw with
    | nil => rfl
    | bool c => cases c <;> exact absurd hchars (by decide)
    | number => exact absurd hchars (hword (s := "null") (by decide) _)
    | text | list | mapping => cases hopening'
  | bool b =>
    cases hw with
    | nil => cases b <;> exact absurd hchars (by decide)
    | bool c => cases b <;> cases c <;> first | rfl | exact absurd hchars (by decide)
    | number => exact absurd hchars (hword (hbool b) _)
    | text | list | mapping => cases hopening'
  | number hm =>
    cases hw with
    | nil => exact absurd hchars.symm (hword (s := "null") (by decide) _)
    | bool c => exact absurd hchars.symm (hword (hbool c) _)
    | number hn =>
      rw [same]
      exact Json.eq_of_number hm hn (String.toList_inj.1 hchars)
    | text | list | mapping => cases hopening'
  | text | list | mapping => cases hopening

theorem map_eq_of_forall₂ {α β : Type} {r : α → α → Prop} {f : α → β} {xs ys : List α}
    (h : List.Forall₂ r xs ys) (hf : ∀ x ∈ xs, ∀ y ∈ ys, r x y → f x = f y) :
    xs.map f = ys.map f := by
  induction h with
  | nil => rfl
  | cons hxy _ ih =>
    rw [List.map_cons, List.map_cons, hf _ (.head _) _ (.head _) hxy,
      ih fun x hx y hy => hf x (.tail _ hx) y (.tail _ hy)]

theorem sameItems_iff {xs ys : List Value} :
    sameItems xs ys = true ↔ List.Forall₂ (fun v w => same v w = true) xs ys := by
  induction xs generalizing ys with
  | nil => cases ys <;> simp [sameItems]
  | cons x xs ih => cases ys <;> simp [sameItems, ih]

theorem sameEntries_of {es fs : List (Key × Value)}
    (h : List.Forall₂ (fun e f : Key × Value => f.1.same e.1 = true ∧ same e.2 f.2 = true) es fs) :
    sameEntries es fs = true := by
  induction h with
  | nil => rfl
  | @cons e f es fs hef _ ih =>
    exact sameEntries_cons.2 ⟨f.2, fs, by simp [remove?, hef.1], hef.2, ih⟩

/-- What is written alike is the same, and what is behind it too. -/
theorem same_of_json {r : Key → Key → Prop} {v w : Value} (hv : IsData r v) (hw : IsData r w)
    {x y : List Char} (hx : Json.Closed x) (hy : Json.Closed y)
    (h : v.jsonChars ++ x = w.jsonChars ++ y) : same v w = true ∧ x = y := by
  have hopening := opening?_eq hv hw h
  have hhead {v : Value} (hv : IsData r v) : ∃ c s, v.jsonChars = c :: s ∧
      Json.isClosing c = false := by
    obtain ⟨c, s, hc, hclosing, -⟩ := jsonChars_head hv
    exact ⟨c, s, hc, hclosing⟩
  induction hv generalizing w x y with
  | nil => exact same_of_bare .nil hw rfl hopening.symm hx hy h
  | bool b => exact same_of_bare (.bool b) hw rfl hopening.symm hx hy h
  | number hn => exact same_of_bare (.number hn) hw rfl hopening.symm hx hy h
  | text s =>
    cases hw with
    | text t =>
      obtain ⟨rfl, hxy⟩ := Json.text_unique h
      exact ⟨by simp [same], hxy⟩
    | _ => cases hopening
  | @list xs hxs ih =>
    cases hw with
    | @list ys hys =>
      simp only [jsonChars_list, List.cons_append, List.append_assoc, List.cons.injEq, true_and,
        List.nil_append] at h
      obtain ⟨hitems, hxy⟩ := Json.brackets_unique (r := fun v w => same v w = true) (by decide)
        (by decide) (fun v hv => hhead (hxs v hv)) (fun w hw => hhead (hys w hw))
        (fun v hv w hw {x y} hx hy h => ih v hv (hys w hw) hx hy h
          (opening?_eq (hxs v hv) (hys w hw) h)) h
      exact ⟨by rw [same]; exact sameItems_iff.2 hitems, hxy⟩
    | _ => cases hopening
  | @mapping es htexts hkeys hes ih =>
    cases hw with
    | @mapping fs htexts' hkeys' hfs =>
      have hquote {es : List (Key × Value)} (htexts : ∀ e ∈ es, ∃ s, e.1 = .text s) :
          ∀ e ∈ es, ∃ c s, entryChars e = c :: s ∧ Json.isClosing c = false := fun e he => by
        obtain ⟨s, hs⟩ := htexts e he
        exact ⟨'"', _, by rw [entryChars, hs, Json.key, Json.text, String.toList_ofList]; rfl, rfl⟩
      simp only [jsonChars_mapping, List.cons_append, List.append_assoc, List.cons.injEq, true_and,
        List.nil_append] at h
      obtain ⟨hentries, hxy⟩ := Json.brackets_unique
        (r := fun e f : Key × Value => f.1.same e.1 = true ∧ same e.2 f.2 = true) (by decide)
        (by decide) (hquote htexts) (hquote htexts') (fun e he f hf {x y} hx hy h => by
          obtain ⟨⟨s, hs⟩, ⟨t, ht⟩⟩ := And.intro (htexts e he) (htexts' f hf)
          simp only [entryChars, hs, ht, Json.key, List.append_assoc] at h
          obtain ⟨rfl, hrest⟩ := Json.text_unique h
          obtain ⟨-, hrest⟩ := List.cons.inj hrest
          obtain ⟨-, hrest⟩ := List.cons.inj hrest
          obtain ⟨hsame, hxy⟩ := ih e he (hfs f hf) hx hy hrest
            (opening?_eq (hes e he) (hfs f hf) hrest)
          exact ⟨⟨by simp [hs, ht, Key.same], hsame⟩, hxy⟩) h
      exact ⟨by rw [same]; exact sameEntries_of hentries, hxy⟩
    | _ => cases hopening

/-! ## Entries in order -/

theorem exists_key_of_sameEntries {es fs : List (Key × Value)} (h : sameEntries es fs = true) :
    ∀ f ∈ fs, ∃ e ∈ es, e.1.same f.1 = true := by
  induction es generalizing fs with
  | nil =>
    rw [sameEntries, List.isEmpty_iff] at h
    subst h
    exact List.forall_mem_nil _
  | cons e es ih =>
    obtain ⟨w, others, hfound, -, hrest⟩ := sameEntries_cons.1 h
    obtain ⟨fs₁, l, fs₂, rfl, rfl, hl, -⟩ := split_of_remove? hfound
    intro f hf
    obtain hf | hf | hf : f ∈ fs₁ ∨ f = (l, w) ∨ f ∈ fs₂ := by simpa using hf
    · obtain ⟨d, hd, hsame⟩ := ih hrest f (by simp [hf])
      exact ⟨d, .tail _ hd, hsame⟩
    · subst hf
      exact ⟨e, .head _, by rw [Key.same_comm]; exact hl⟩
    · obtain ⟨d, hd, hsame⟩ := ih hrest f (by simp [hf])
      exact ⟨d, .tail _ hd, hsame⟩

/-- Of two mappings that are the same and in order, the entries match one by one. -/
theorem entries_match {es fs : List (Key × Value)} (hes : ∀ e ∈ es, ∃ s, e.1 = .text s)
    (hfs : ∀ f ∈ fs, ∃ s, f.1 = .text s) (hes' : (es.map Prod.fst).Pairwise Key.Before)
    (hfs' : (fs.map Prod.fst).Pairwise Key.Before) (h : sameEntries es fs = true) :
    List.Forall₂ (fun e f : Key × Value => e.1 = f.1 ∧ same e.2 f.2 = true) es fs := by
  induction es generalizing fs with
  | nil =>
    rw [sameEntries, List.isEmpty_iff] at h
    rw [h]
    exact .nil
  | cons e es ih =>
    obtain ⟨k, v⟩ := e
    obtain ⟨w, others, hfound, hvw, hrest⟩ := sameEntries_cons.1 h
    obtain ⟨fs₁, l, fs₂, rfl, rfl, hl, -⟩ := split_of_remove? hfound
    obtain ⟨s, hs⟩ := hes _ (.head _)
    have hkl : k = l := Key.eq_of_same hs (by rw [Key.same_comm]; exact hl)
    subst hkl
    obtain ⟨hbefore, hes''⟩ := List.pairwise_cons.1 hes'
    cases fs₁ with
    | nil =>
      exact .cons ⟨rfl, hvw⟩ (ih (fun e he => hes e (.tail _ he)) (fun f hf => hfs f (.tail _ hf))
        hes'' (List.pairwise_cons.1 hfs').2 hrest)
    | cons f fs₁ =>
      -- The first key of the other mapping would be behind its key here and before it there.
      obtain ⟨d, hd, hsame⟩ := exists_key_of_sameEntries hrest f (.head _)
      obtain ⟨t, ht⟩ := hes d (.tail _ hd)
      have hdf : d.1 = f.1 := Key.eq_of_same ht hsame
      have hkf : k.Before f.1 := hdf ▸ hbefore d.1 (List.mem_map_of_mem hd)
      have hfk : f.1.Before k := (List.pairwise_cons.1 hfs').1 k (by simp)
      exact absurd hkf hfk.asymm

/-- Values that are the same are written alike if their entries are in order. -/
theorem json_of_same {v w : Value} (hv : IsData Key.Before v) (hw : IsData Key.Before w)
    (hleaves : LeavesAgree v w) (h : same v w = true) : v.json .spaced = w.json .spaced := by
  have hchars {v w : Value} (h : v.json .spaced = w.json .spaced) : v.jsonChars = w.jsonChars :=
    congrArg String.toList h
  induction hv generalizing w with
  | nil =>
    cases hw with
    | nil => rfl
    | _ => cases h
  | bool b =>
    cases hw with
    | bool | number => exact hleaves.self trivial trivial h
    | _ => cases h
  | number =>
    cases hw with
    | bool | number => exact hleaves.self trivial trivial h
    | _ => cases h
  | text s =>
    cases hw with
    | text t => rw [show s = t by simpa [same] using h]
    | _ => cases h
  | @list xs hxs ih =>
    cases hw with
    | @list ys hys =>
      rw [same, sameItems_iff] at h
      have hall : xs.map jsonChars = ys.map jsonChars :=
        map_eq_of_forall₂ h fun v hv w hw hvw => hchars (ih v hv (hys w hw)
          (hleaves.of (fun P => .item hv) fun P => .item hw) hvw)
      exact String.toList_inj.1 (by
        rw [← jsonChars, ← jsonChars, jsonChars_list, jsonChars_list, hall])
    | _ => cases h
  | @mapping es htexts hkeys hes ih =>
    cases hw with
    | @mapping fs htexts' hkeys' hfs =>
      rw [same] at h
      have hall : es.map entryChars = fs.map entryChars := by
        refine map_eq_of_forall₂ (entries_match htexts htexts' hkeys hkeys' h)
          fun e he f hf hef => ?_
        have hvalues := ih e he (hfs f hf)
          (hleaves.of (fun P => .entry he) fun P => .entry hf) hef.2
        rw [entryChars, entryChars, hef.1, hchars hvalues]
      exact String.toList_inj.1 (by
        rw [← jsonChars, ← jsonChars, jsonChars_mapping, jsonChars_mapping, hall])
    | _ => cases h

end Value

end Liquid
