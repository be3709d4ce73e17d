import Liquid.Number.Reader

/-!
# Digits that write numbers

A reader of numbers takes a run of digits as a whole.  A run of digits, with a minus before it or
not, is a whole number, and with a point and further digits behind it a float.

* `isSome_readInt_digits`: a run of digits is read as a whole number.
* `isSome_readFloat_digits`: a run of digits with a fraction is read as a float.
-/
namespace Liquid.Number

open Liquid.Text

variable {c : Char} {ds fs r : List Char}

/-- A digit goes to the digits, whatever follows. -/
theorem digitTail_cons {d : Nat} (h : digitValue? c = some d) (r : List Char) :
    digitTail (c :: r) = (d :: (digitTail r).1, (digitTail r).2) := by
  cases r with
  | nil => simp only [digitTail, h]
  | cons c' r => rw [digitTail, h]

/-- A run of digits is taken as a whole if what follows it does not go on with it. -/
theorem digitTail_append (hr : (digitTail r).2 = r) (h : ∀ c ∈ ds, isDigit c = true) :
    (digitTail (ds ++ r)).2 = r := by
  induction ds with
  | nil => exact hr
  | cons c ds ih =>
    obtain ⟨d, hd⟩ := Option.isSome_iff_exists.1 (h c (.head ds))
    rw [List.cons_append, digitTail_cons hd]
    exact ih fun c hc => h c (.tail _ hc)

theorem digitPart_append (hr : (digitTail r).2 = r) (h : ∀ c' ∈ c :: ds, isDigit c' = true) :
    ∃ d vs, digitPart (c :: (ds ++ r)) = (d :: vs, r) := by
  obtain ⟨d, hd⟩ := Option.isSome_iff_exists.1 (h c (.head ds))
  refine ⟨d, (digitTail (ds ++ r)).1, ?_⟩
  rw [digitPart, hd]
  exact Prod.ext rfl (digitTail_append hr fun c' hc => h c' (.tail _ hc))

theorem digitTail_point (r : List Char) : (digitTail ('.' :: r)).2 = '.' :: r := by
  cases r with
  | nil => rfl
  | cons c r =>
    rw [digitTail]
    rfl

/-! ## Signs -/

theorem signPart_digit (h : isDigit c = true) (r : List Char) :
    signPart (c :: r) = (false, c :: r) := by
  unfold signPart
  split
  · rename_i hc
    cases hc
    cases h
  · rename_i hc
    cases hc
    cases h
  · rfl

/-- The rest behind the minus, if there is one. -/
theorem signPart_append {sign : List Char} (hs : sign = [] ∨ sign = ['-'])
    (h : isDigit c = true) (r : List Char) : (signPart (sign ++ c :: r)).2 = c :: r := by
  rcases hs with rfl | rfl
  · exact congrArg Prod.snd (signPart_digit h r)
  · rfl

/-! ## Numbers -/

theorem isSome_readInt {s : List Char} {d : Nat} {vs : List Nat}
    (h : digitPart (signPart s).2 = (d :: vs, [])) : (readInt? s).isSome = true := by
  unfold readInt?
  dsimp only
  rw [h]
  rfl

theorem isSome_readUnsigned {s : List Char} {d : Nat} {vs : List Nat}
    (h : digitPart s = (d :: vs, r)) (hr : exponentPart? (fractionPart r).2 = some 0) :
    (readUnsigned? s).isSome = true := by
  unfold readUnsigned?
  dsimp only
  split
  · rfl
  · split
    · rfl
    · simp only [h, hr]
      rfl

/-- A run of digits, perhaps behind a minus, is read as a whole number. -/
theorem isSome_readInt_digits {sign : List Char} (hs : sign = [] ∨ sign = ['-'])
    (h : ∀ c' ∈ c :: ds, isDigit c' = true) : (readInt? (sign ++ c :: ds)).isSome = true := by
  obtain ⟨d, vs, hd⟩ := digitPart_append (r := []) rfl h
  rw [List.append_nil] at hd
  apply isSome_readInt
  rw [signPart_append hs (h c (.head ds))]
  exact hd

/-- A run of digits, perhaps behind a minus, with a fraction is read as a float. -/
theorem isSome_readFloat_digits {sign : List Char} (hs : sign = [] ∨ sign = ['-'])
    (h : ∀ c' ∈ c :: ds, isDigit c' = true) {f : Char} (hf : ∀ c' ∈ f :: fs, isDigit c' = true) :
    (readFloat? (sign ++ c :: ds ++ '.' :: f :: fs)).isSome = true := by
  obtain ⟨d, vs, hd⟩ := digitPart_append (digitTail_point (f :: fs)) h
  obtain ⟨e, ws, he⟩ := digitPart_append (r := []) rfl hf
  rw [List.append_nil] at he
  have hu : (readUnsigned? (c :: (ds ++ '.' :: f :: fs))).isSome = true := by
    apply isSome_readUnsigned hd
    rw [fractionPart, he]
    rfl
  rw [List.append_assoc, List.cons_append]
  unfold readFloat?
  dsimp only
  rw [signPart_append hs (h c (.head ds)), Option.isSome_map]
  exact hu

end Liquid.Number
