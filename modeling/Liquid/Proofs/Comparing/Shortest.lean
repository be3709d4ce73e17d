import Mathlib.Algebra.Order.Field.Power
import Mathlib.Data.Rat.Cast.Order
import Mathlib.Tactic.FieldSimp
import Mathlib.Tactic.Linarith
import Mathlib.Tactic.Positivity
import Mathlib.Tactic.Ring
import Liquid.Number.Basic

/-!
# The text of a float

A float is written with as few digits as tell it from all others.  Here is what this rests on: the
decimal that is found rounds to the float, no number rounds to two floats, and the digits write this
decimal.  So the text tells the float.

**What rounds to a float.** The numbers between the middles of the float and its neighbours.  At a
power of two the neighbour below is nearer, and the middles themselves round to the float with the
even mantissa.  All bounds are whole numbers of quarters of the float's unit.

* `Decimal.written_floatDigits`: the digits of a float write its decimal.
* `Decimal.isSome_onGrid`: seventeen digits are enough.
* `Decimal.rounds_ofFloat`: the shortest decimal of a float rounds to it.
* `Decimal.RoundsTo.unique`: a number rounds to one float.
* `parts_eq_of_floatText`: floats with one text are one float.
-/
namespace Liquid

/-! ## What a text of digits writes -/

namespace Decimal

/-- The size of a decimal. -/
def size (d : Decimal) : ℚ := d.coefficient * 10 ^ d.exponent

/-- The number of a run of digits. -/
def run (s : List Char) : ℕ := Nat.ofDigitChars 10 s 0

/-- The number behind the letter of an exponent. -/
def exponentOf : List Char → ℤ
  | '-' :: s => -(run s : ℤ)
  | _ :: s => run s
  | [] => 0

/-- The number that a text writes: digits with a point among them, and perhaps an exponent. -/
def written (s : List Char) : ℚ :=
  let mantissa := s.takeWhile (· ≠ 'e')
  let fraction := (mantissa.dropWhile (· ≠ '.')).drop 1
  run (mantissa.filter Char.isDigit) *
    10 ^ (exponentOf ((s.dropWhile (· ≠ 'e')).drop 1) - fraction.length)

/-- A number without an exponent, or before one. -/
theorem written_append (whole fraction : List Char) {mantissa rest : List Char}
    (hw : ∀ c ∈ whole, c.isDigit = true) (hf : ∀ c ∈ fraction, c.isDigit = true)
    (hm : mantissa = whole ++ '.' :: fraction ∨ fraction = [] ∧ mantissa = whole)
    (hrest : ∀ c ∈ rest.head?, c = 'e') :
    written (mantissa ++ rest) =
      run (whole ++ fraction) * 10 ^ (exponentOf (rest.drop 1) - fraction.length) := by
  have hdigit {c d : Char} (hc : c.isDigit = true) (hd : d.isDigit = false) : c ≠ d := by
    rintro rfl
    rw [hc] at hd
    cases hd
  have hletter : ∀ c ∈ mantissa, decide (c ≠ 'e') = true := by
    intro c hc
    refine decide_eq_true ?_
    obtain rfl | ⟨-, rfl⟩ := hm
    · obtain hc | hc := List.mem_append.1 hc
      · exact hdigit (hw c hc) rfl
      · obtain rfl | hc := List.mem_cons.1 hc
        · decide
        · exact hdigit (hf c hc) rfl
    · exact hdigit (hw c hc) rfl
  have hstop : rest.takeWhile (· ≠ 'e') = [] ∧ rest.dropWhile (· ≠ 'e') = rest := by
    cases rest with
    | nil => exact ⟨rfl, rfl⟩
    | cons c rest =>
      rw [hrest c rfl]
      exact ⟨rfl, rfl⟩
  have hpoint : ∀ c ∈ whole, decide (c ≠ '.') = true := fun c hc =>
    decide_eq_true (hdigit (hw c hc) rfl)
  have hparts : mantissa.filter Char.isDigit = whole ++ fraction ∧
      (mantissa.dropWhile (· ≠ '.')).drop 1 = fraction := by
    obtain rfl | ⟨rfl, rfl⟩ := hm
    · rw [List.filter_append, List.filter_eq_self.2 hw, List.filter_cons_of_neg (by decide),
        List.filter_eq_self.2 hf, List.dropWhile_append_of_pos hpoint]
      exact ⟨rfl, rfl⟩
    · have hnone : mantissa.dropWhile (· ≠ '.') = [] := by
        rw [← List.append_nil mantissa, List.dropWhile_append_of_pos hpoint, List.dropWhile_nil]
      rw [List.filter_eq_self.2 hw, List.append_nil, hnone]
      exact ⟨rfl, rfl⟩
  unfold written
  dsimp only
  rw [List.takeWhile_append_of_pos hletter, List.dropWhile_append_of_pos hletter, hstop.1, hstop.2,
    List.append_nil, hparts.1, hparts.2]

theorem written_fraction (whole fraction : List Char) (hw : ∀ c ∈ whole, c.isDigit = true)
    (hf : ∀ c ∈ fraction, c.isDigit = true) :
    written (whole ++ '.' :: fraction) =
      run (whole ++ fraction) * 10 ^ (-(fraction.length : ℤ)) := by
  have h := written_append whole fraction hw hf (.inl rfl) (show ∀ c ∈ [].head?, c = 'e' by simp)
  simpa [exponentOf] using h

theorem run_digits (n : ℕ) : run (digits n) = n :=
  Nat.ofDigitChars_toDigits (by decide) (by decide)

theorem run_append_zeros (s : List Char) (n : ℕ) :
    run (s ++ List.replicate n '0') = 10 ^ n * run s := by
  rw [run, Nat.ofDigitChars_append, Nat.ofDigitChars_replicate_zero, run]

theorem run_zeros_append (s : List Char) (n : ℕ) : run (List.replicate n '0' ++ s) = run s := by
  rw [run, Nat.ofDigitChars_append, Nat.ofDigitChars_replicate_zero, Nat.mul_zero, run]

theorem isDigit_digits (n : ℕ) : ∀ c ∈ digits n, c.isDigit = true := fun _ =>
  Nat.isDigit_of_mem_toDigits (by decide) (by decide)

theorem length_digits_pos (n : ℕ) : 0 < (digits n).length :=
  List.length_pos_iff.2 Nat.toDigits_ne_nil

theorem isDigit_zeros (n : ℕ) : ∀ c ∈ List.replicate n '0', c.isDigit = true := fun c hc => by
  rw [List.eq_of_mem_replicate hc]
  rfl

/-- The exponent of a float is written with a sign and at least two digits. -/
theorem exponentOf_sign (n : ℤ) :
    exponentOf ((if n < 0 then '-' else '+') ::
      if n.natAbs < 10 then '0' :: digits n.natAbs else digits n.natAbs) = n := by
  have hrun :
      run (if n.natAbs < 10 then '0' :: digits n.natAbs else digits n.natAbs) = n.natAbs := by
    split
    · exact (run_zeros_append _ 1).trans (run_digits _)
    · exact run_digits _
  split
  · rw [exponentOf, hrun]
    omega
  · rw [exponentOf, hrun]
    · omega
    · decide

/-- The digits of a float write its number. -/
theorem written_floatDigits (d : Decimal) : written d.floatDigits = d.size := by
  obtain ⟨negative, c, k⟩ := d
  have hdigits := isDigit_digits c
  have hlength := length_digits_pos c
  unfold floatDigits size
  extract_lets ds point exponent
  have hpoint : point = ds.length + k := rfl
  dsimp only at ds ⊢
  split
  · rename_i hc
    subst hc
    refine (written_fraction ['0'] ['0'] (isDigit_zeros 1) (isDigit_zeros 1)).trans ?_
    rw [show run (['0'] ++ ['0']) = 0 from rfl, Nat.cast_zero, zero_mul, zero_mul]
  split
  · split
    · -- All digits stand before the point.
      rename_i hk
      have hfraction := written_fraction (ds ++ List.replicate k.toNat '0') ['0']
      refine (hfraction ?_ (isDigit_zeros 1)).trans ?_
      · exact List.forall_mem_append.2 ⟨hdigits, isDigit_zeros _⟩
      · obtain ⟨n, rfl⟩ := Int.eq_ofNat_of_zero_le hk
        rw [show ['0'] = List.replicate 1 '0' from rfl, run_append_zeros, run_append_zeros,
          run_digits, Int.toNat_natCast, List.length_replicate]
        push_cast
        rw [zpow_neg, zpow_natCast]
        field_simp
    · split
      · -- The point stands among the digits.
        refine (written_fraction (ds.take point.toNat) (ds.drop point.toNat) ?_ ?_).trans ?_
        · exact fun c hc => hdigits c (List.mem_of_mem_take hc)
        · exact fun c hc => hdigits c (List.mem_of_mem_drop hc)
        · rw [List.take_append_drop, run_digits, List.length_drop,
            show -((ds.length - point.toNat : ℕ) : ℤ) = k by omega]
      · -- All digits stand behind the point.
        have hfraction := written_fraction ['0'] (List.replicate (-point).toNat '0' ++ ds)
        refine (hfraction (isDigit_zeros 1) ?_).trans ?_
        · exact List.forall_mem_append.2 ⟨isDigit_zeros _, hdigits⟩
        · rw [show ['0'] = List.replicate 1 '0' from rfl, run_zeros_append, run_zeros_append,
            run_digits, List.length_append, List.length_replicate,
            show -(((-point).toNat + ds.length : ℕ) : ℤ) = k by omega]
  · rw [List.append_assoc]
    refine (written_append (ds.take 1) (ds.drop 1) (fun c hc => hdigits c (List.mem_of_mem_take hc))
      (fun c hc => hdigits c (List.mem_of_mem_drop hc)) ?_ (by simp)).trans ?_
    · split
      · rename_i hone
        exact .inr ⟨List.drop_of_length_le (by omega), List.append_nil _⟩
      · exact .inl rfl
    · rw [List.take_append_drop, run_digits, List.length_drop]
      have hexponent := exponentOf_sign (point - 1)
      change (c : ℚ) * 10 ^ (exponentOf ((if point - 1 < 0 then '-' else '+') ::
        if (point - 1).natAbs < 10 then '0' :: digits (point - 1).natAbs
        else digits (point - 1).natAbs) - ((ds.length - 1 : ℕ) : ℤ)) = _
      have hshift {n : ℕ} (hn : 0 < n) : (n : ℤ) + k - 1 - ((n - 1 : ℕ) : ℤ) = k := by omega
      rw [hexponent, hpoint, hshift hlength]

/-! ## What rounds to a float -/

/-- How far below a float the numbers that round to it begin, in quarters of its unit: half way to
the float before it, which at a power of two is nearer. -/
def gap (m : ℕ) (e : ℤ) : ℕ := if m = 2 ^ 52 ∧ e ≠ -1074 then 1 else 2

/-- A number rounds to the float `m · 2^e`.  The ends of the interval round to it if `m` is even. -/
structure RoundsTo (t : ℚ) (m : ℕ) (e : ℤ) : Prop where
  low : (4 * m - gap m e : ℕ) * 2 ^ e ≤ 4 * t
  high : 4 * t ≤ (4 * m + 2 : ℕ) * 2 ^ e
  ends : m % 2 = 1 → (4 * m - gap m e : ℕ) * 2 ^ e < 4 * t ∧ 4 * t < (4 * m + 2 : ℕ) * 2 ^ e

theorem pow_toNat {b : ℚ} (hb : b ≠ 0) (n : ℤ) : b ^ n.toNat = b ^ (-n).toNat * b ^ n := by
  obtain ⟨k, rfl | rfl⟩ := n.eq_nat_or_neg
  · simp
  · simp [hb]

/-- Floats and decimals on one grid of whole numbers. -/
theorem grid (e g : ℤ) : ∃ k : ℚ, 0 < k ∧
    ((Nat.pow 2 (e - 2).toNat * Nat.pow 10 (-g).toNat : ℕ) : ℚ) = k * 2 ^ e ∧
    ((Nat.pow 2 (2 - e).toNat * Nat.pow 10 g.toNat : ℕ) : ℚ) = k * (4 * 10 ^ g) := by
  have htwo := pow_toNat two_ne_zero (2 - e)
  have hten := pow_toNat (show (10 : ℚ) ≠ 0 by norm_num) g
  rw [neg_sub, zpow_sub₀ two_ne_zero] at htwo
  refine ⟨2 ^ (e - 2).toNat * 10 ^ (-g).toNat / 2 ^ e, by positivity, ?_, ?_⟩
  · simp only [Nat.pow_eq, Nat.cast_mul, Nat.cast_pow, Nat.cast_ofNat]
    field_simp
  · simp only [Nat.pow_eq, Nat.cast_mul, Nat.cast_pow, Nat.cast_ofNat]
    rw [htwo, hten]
    field_simp
    norm_num

theorem rounds_of_onGrid {m n : ℕ} {e g : ℤ} (h : onGrid? m e g = some n) :
    RoundsTo (n * 10 ^ g) m e := by
  obtain ⟨k, hk, hup, hden⟩ := grid e g
  unfold onGrid? at h
  extract_lets up den low mid high inside c below above twice at h
  have hlow : low = (4 * m - gap m e) * up := by
    simp only [low, gap, Nat.pow_eq]
    split <;> rfl
  have hinside : inside (n * den) = true := by
    split at h
    · rename_i hboth
      rw [Bool.and_eq_true] at hboth
      rw [← Option.some.inj h]
      split
      · exact hboth.1
      · exact hboth.2
    · split at h
      · rename_i hbelow
        rwa [← Option.some.inj h]
      · split at h
        · rename_i habove
          rwa [← Option.some.inj h]
        · cases h
  -- Comparing on the grid is comparing.
  have hscale (a b : ℕ) : ((a * up : ℕ) : ℚ) = k * (a * 2 ^ e) ∧
      ((b * den : ℕ) : ℚ) = k * (4 * (b * 10 ^ g)) := by
    rw [Nat.cast_mul a, Nat.cast_mul b, show (up : ℚ) = _ from hup, show (den : ℚ) = _ from hden]
    constructor <;> ring
  have hle (a b : ℕ) : a * up ≤ b * den ↔ (a : ℚ) * 2 ^ e ≤ 4 * (b * 10 ^ g) := by
    rw [← Nat.cast_le (α := ℚ), (hscale a b).1, (hscale a b).2, mul_le_mul_iff_right₀ hk]
  have hge (a b : ℕ) : b * den ≤ a * up ↔ 4 * ((b : ℚ) * 10 ^ g) ≤ a * 2 ^ e := by
    rw [← Nat.cast_le (α := ℚ), (hscale a b).1, (hscale a b).2, mul_le_mul_iff_right₀ hk]
  simp only [inside, hlow, high] at hinside
  split at hinside
  · rename_i heven
    simp only [Bool.and_eq_true, decide_eq_true_eq] at hinside
    exact ⟨(hle _ _).1 hinside.1, (hge _ _).1 hinside.2, fun hodd => by omega⟩
  · simp only [Bool.and_eq_true, decide_eq_true_eq] at hinside
    have hlow' := lt_of_not_ge fun h => absurd ((hge _ _).2 h) hinside.1.not_ge
    have hhigh' := lt_of_not_ge fun h => absurd ((hle _ _).2 h) hinside.2.not_ge
    exact ⟨hlow'.le, hhigh'.le, fun _ => ⟨hlow', hhigh'⟩⟩

/-- On a grid that is fine enough for seventeen digits, one of the neighbours of a float rounds to
it. -/
theorem isSome_onGrid {m : ℕ} {e g : ℤ} (hm0 : 0 < m) (hm : m < 2 ^ 53)
    (hfine : 10 ^ g * 10 ^ 16 ≤ (m : ℚ) * 2 ^ e) : (onGrid? m e g).isSome = true := by
  obtain ⟨k, hk, hup, hden⟩ := grid e g
  unfold onGrid?
  extract_lets up den low mid high inside c below above twice
  have hlow : low = (4 * m - gap m e) * up := by
    simp only [low, gap, Nat.pow_eq]
    split <;> rfl
  have hden0 : 0 < den := Nat.mul_pos (Nat.pow_pos (by decide)) (Nat.pow_pos (by decide))
  have hup0 : 0 < up := Nat.mul_pos (Nat.pow_pos (by decide)) (Nat.pow_pos (by decide))
  have hgrid : den * 10 ^ 16 ≤ 4 * (m * up) := by
    rw [← Nat.cast_le (α := ℚ)]
    push_cast
    rw [show (up : ℚ) = _ from hup, show (den : ℚ) = _ from hden]
    nlinarith [mul_le_mul_of_nonneg_left hfine hk.le]
  have hc : c * den ≤ mid := Nat.div_mul_le_self mid den
  have hc' : mid < (c + 1) * den := Nat.lt_mul_of_div_lt (Nat.lt_succ_self c) hden0
  -- All is a matter of `up`, of `den` and of the products with them.
  have hmid : mid = 4 * (m * up) := Nat.mul_assoc ..
  have hhigh : high = 4 * (m * up) + 2 * up := by simp only [high]; ring
  have hlow' : low + gap m e * up = 4 * (m * up) := by
    have hgap : gap m e ≤ 2 := by unfold gap; split <;> decide
    rw [hlow, ← Nat.add_mul, Nat.sub_add_cancel (by omega), Nat.mul_assoc]
  have hnext : (c + 1) * den = c * den + den := Nat.succ_mul ..
  have hgap : gap m e * up = 2 * up ∨ gap m e * up = up ∧ m * up = 2 ^ 52 * up ∧ m % 2 = 0 := by
    unfold gap
    split
    · rename_i hpower
      rw [hpower.1]
      exact .inr ⟨Nat.one_mul up, rfl, by decide⟩
    · exact .inl rfl
  have hbound : m * up ≤ (2 ^ 53 - 1) * up := Nat.mul_le_mul_right _ (by omega)
  have hone : below = true ∨ above = true := by
    by_contra hnone
    rw [not_or, Bool.not_eq_true, Bool.not_eq_true] at hnone
    obtain ⟨hbelow, habove⟩ := hnone
    by_cases heven : m % 2 = 0
    · simp only [below, above, inside, heven, if_true, Bool.and_eq_false_iff,
        decide_eq_false_iff_not] at hbelow habove
      omega
    · simp only [below, above, inside, heven, if_false, Bool.and_eq_false_iff,
        decide_eq_false_iff_not] at hbelow habove
      omega
  obtain h | h := hone
  · cases above <;> simp [h]
  · cases below <;> simp [h]

/-! ## The shortest decimal -/

/-- Zeros at the end go to the exponent. -/
theorem dropZeros_spec (fuel c : ℕ) (g : ℤ) :
    ((dropZeros fuel c g).1 : ℚ) * 10 ^ (dropZeros fuel c g).2 = c * 10 ^ g := by
  induction fuel generalizing c g with
  | zero => rfl
  | succ fuel ih =>
    rw [dropZeros]
    split
    · rename_i hzero
      rw [ih, zpow_add_one₀ (by norm_num)]
      have hc : c = 10 * (c / 10) := by omega
      conv_rhs => rw [hc]
      push_cast
      ring
    · rfl

/-- What is tried up to a length that is enough rounds to the float. -/
theorem rounds_of_shortestAux {m : ℕ} {e point : ℤ} {n size : ℕ}
    (h : (onGrid? m e (point - (size + n : ℕ))).isSome = true) :
    RoundsTo ((shortestAux m e point (n + 1) size).1 *
      10 ^ (shortestAux m e point (n + 1) size).2) m e := by
  induction n generalizing size with
  | zero =>
    obtain ⟨c, hc⟩ := Option.isSome_iff_exists.1 h
    rw [Nat.add_zero] at hc
    simp only [shortestAux, hc]
    rw [dropZeros_spec]
    exact rounds_of_onGrid hc
  | succ n ih =>
    rw [shortestAux]
    split
    · rename_i c hc
      rw [dropZeros_spec]
      exact rounds_of_onGrid hc
    · refine ih ?_
      rwa [Nat.add_right_comm, Nat.add_assoc]

theorem pow_length_le {n : ℕ} (hn : 0 < n) : 10 ^ ((digits n).length - 1) ≤ n := by
  by_contra hlt
  by_cases hone : (digits n).length - 1 = 0
  · rw [hone] at hlt
    omega
  · have hle := (Nat.length_toDigits_le_iff (b := 10) (by decide) (Nat.pos_of_ne_zero hone)).2
      (Nat.lt_of_not_le hlt)
    have hpos := length_digits_pos n
    unfold digits at hpos hle
    omega

theorem two_pow_le {a b c d : ℕ} (h : 2 ^ a ≤ 10 ^ b) (n : ℕ) (hc : c ≤ a * n) (hd : b * n ≤ d) :
    2 ^ c ≤ 10 ^ d := calc
  2 ^ c ≤ 2 ^ (a * n) := Nat.pow_le_pow_right (by decide) hc
  _ = (2 ^ a) ^ n := Nat.pow_mul ..
  _ ≤ (10 ^ b) ^ n := Nat.pow_le_pow_left h n
  _ = 10 ^ (b * n) := (Nat.pow_mul ..).symm
  _ ≤ 10 ^ d := Nat.pow_le_pow_right (by decide) hd

/-- The number of digits before the point tells the size. -/
theorem pointOf_spec {m : ℕ} {e : ℤ} (hm : 0 < m) (he : -1074 ≤ e) :
    (10 : ℚ) ^ (pointOf m e - 1) ≤ m * 2 ^ e := by
  -- The power has a name, as it is too large to be computed.
  obtain ⟨k, hk⟩ : ∃ k, k = 350 := ⟨_, rfl⟩
  have hlarge : 2 ^ (-e).toNat ≤ 10 ^ k :=
    two_pow_le (show 2 ^ 93 ≤ 10 ^ 28 by decide) 12 (by omega) (by omega)
  have htwo : ∀ i, 0 < 2 ^ i := fun i => Nat.pow_pos (by decide)
  obtain ⟨n, hn⟩ : ∃ n, n = m * 10 ^ k * 2 ^ e.toNat / 2 ^ (-e).toNat := ⟨_, rfl⟩
  have hn0 : 0 < n := by
    rw [hn]
    refine Nat.div_pos (hlarge.trans ?_) (htwo _)
    rw [Nat.mul_comm m, Nat.mul_assoc]
    exact Nat.le_mul_of_pos_right _ (Nat.mul_pos hm (htwo _))
  have hle : (n : ℚ) ≤ m * 10 ^ k * 2 ^ e := by
    have hmul : n * 2 ^ (-e).toNat ≤ m * 10 ^ k * 2 ^ e.toNat := hn ▸ Nat.div_mul_le_self ..
    have hcast : (n : ℚ) * 2 ^ (-e).toNat ≤ m * 10 ^ k * 2 ^ e.toNat := by exact_mod_cast hmul
    rw [pow_toNat two_ne_zero e, mul_left_comm, mul_comm (n : ℚ)] at hcast
    exact le_of_mul_le_mul_left hcast (by positivity)
  have hpoint : pointOf m e - 1 = ((digits n).length - 1 : ℕ) - (k : ℕ) := by
    have hpos := length_digits_pos n
    have hdef : pointOf m e = (digits n).length - k := by
      rw [pointOf, ← hk]
      simp only [Nat.pow_eq, ← hn]
      rw [hk]
      rfl
    omega
  rw [hpoint, zpow_sub₀ (by norm_num), zpow_natCast, zpow_natCast, div_le_iff₀ (by positivity)]
  calc (10 : ℚ) ^ ((digits n).length - 1) ≤ n := by exact_mod_cast pow_length_le hn0
    _ ≤ m * 10 ^ k * 2 ^ e := hle
    _ = m * 2 ^ e * 10 ^ k := by ring

/-- The shortest decimal of a float rounds to it. -/
theorem rounds_ofFloat {p : Binary.Parts} (hm : 0 < p.mantissa) (hm' : p.mantissa < 2 ^ 53)
    (he : -1074 ≤ p.exponent) : RoundsTo (ofFloat p).size p.mantissa p.exponent := by
  have hfine : (10 : ℚ) ^ (pointOf p.mantissa p.exponent - (1 + 16 : ℕ)) * 10 ^ 16 ≤
      p.mantissa * 2 ^ p.exponent := by
    rw [← zpow_natCast (10 : ℚ) 16, ← zpow_add₀ (by norm_num)]
    refine le_trans (le_of_eq ?_) (pointOf_spec hm he)
    congr 1
    omega
  rw [ofFloat, if_neg hm.ne']
  exact rounds_of_shortestAux (isSome_onGrid hm hm' hfine)

/-! ## One float for a text -/

/-- How the mantissa and the exponent of a float that is not zero are chosen: the mantissa has 53
bits, or fewer if the exponent is the least one, and there is a greatest exponent. -/
structure Normal (m : ℕ) (e : ℤ) : Prop where
  pos : 0 < m
  lt : m < 2 ^ 53
  le : -1074 ≤ e
  most : e ≤ 971
  full : 2 ^ 52 ≤ m ∨ e = -1074

theorem RoundsTo.le_of_same {t : ℚ} {m n : ℕ} {e : ℤ} (h : RoundsTo t m e) (h' : RoundsTo t n e)
    (hm : 0 < m) : m ≤ n := by
  have hgap : gap m e = 2 ∨ gap m e = 1 ∧ m % 2 = 0 := by
    unfold gap
    split
    · rename_i hpower
      exact .inr ⟨rfl, by rw [hpower.1]; decide⟩
    · exact .inl rfl
  have hunit : (0 : ℚ) < 2 ^ e := by positivity
  have hle : 4 * m - gap m e ≤ 4 * n + 2 := by
    have := le_of_mul_le_mul_right (h.low.trans h'.high) hunit
    exact_mod_cast this
  have hlt (hodd : m % 2 = 1 ∨ n % 2 = 1) : 4 * m - gap m e < 4 * n + 2 := by
    have hstrict : ((4 * m - gap m e : ℕ) : ℚ) * 2 ^ e < (4 * n + 2 : ℕ) * 2 ^ e := by
      obtain hodd | hodd := hodd
      · exact (h.ends hodd).1.trans_le h'.high
      · exact h.low.trans_lt (h'.ends hodd).2
    have := lt_of_mul_lt_mul_right hstrict hunit.le
    exact_mod_cast this
  omega

theorem RoundsTo.exponent_le {t : ℚ} {m n : ℕ} {e f : ℤ} (h : RoundsTo t m e)
    (h' : RoundsTo t n f) (hm : Normal m e) (hn : Normal n f) : f ≤ e := by
  by_contra hef
  have hmin : f ≠ -1074 := fun hf => by
    have := hm.le
    omega
  have hfull := hn.full.resolve_right hmin
  have hgap : gap n f = 2 ∧ n ≠ 2 ^ 52 ∨ gap n f = 1 ∧ n = 2 ^ 52 := by
    unfold gap
    split
    · rename_i hpower
      exact .inr ⟨rfl, hpower.1⟩
    · rename_i hpower
      exact .inl ⟨rfl, fun h => hpower ⟨h, hmin⟩⟩
  have hunit : (0 : ℚ) < 2 ^ e := by positivity
  have hdouble : (2 : ℚ) * 2 ^ e ≤ 2 ^ f := by
    rw [← zpow_one_add₀ two_ne_zero]
    exact zpow_le_zpow_right₀ one_le_two (by omega)
  have hbelow (a : ℕ) : ((a * 2 : ℕ) : ℚ) * 2 ^ e ≤ a * 2 ^ f := by
    rw [Nat.cast_mul, mul_assoc]
    exact mul_le_mul_of_nonneg_left hdouble (Nat.cast_nonneg a)
  have hle : (4 * n - gap n f) * 2 ≤ 4 * m + 2 := by
    have := le_of_mul_le_mul_right ((hbelow _).trans (h'.low.trans h.high)) hunit
    exact_mod_cast this
  have hlt (hodd : m % 2 = 1) : (4 * n - gap n f) * 2 < 4 * m + 2 := by
    have := lt_of_mul_lt_mul_right ((hbelow _).trans_lt (h'.low.trans_lt (h.ends hodd).2)) hunit.le
    exact_mod_cast this
  -- The greatest mantissa and the least one with all its bits meet in an end, and one is odd.
  have := hm.lt
  omega

/-- A number rounds to one float. -/
theorem RoundsTo.unique {t : ℚ} {m n : ℕ} {e f : ℤ} (h : RoundsTo t m e) (h' : RoundsTo t n f)
    (hm : Normal m e) (hn : Normal n f) : m = n ∧ e = f := by
  obtain rfl : e = f :=
    le_antisymm (h'.exponent_le h hn hm) (h.exponent_le h' hm hn)
  exact ⟨le_antisymm (h.le_of_same h' hm.pos) (h'.le_of_same h hn.pos), rfl⟩

theorem RoundsTo.pos {t : ℚ} {m : ℕ} {e : ℤ} (h : RoundsTo t m e) (hm : 0 < m) : 0 < t := by
  have hgap : gap m e ≤ 2 := by unfold gap; split <;> decide
  have hlow : (0 : ℚ) < (4 * m - gap m e : ℕ) * 2 ^ e :=
    mul_pos (by exact_mod_cast (by omega : 0 < 4 * m - gap m e)) (by positivity)
  linarith [h.low]

/-- The digits of a float begin with a digit. -/
theorem head_floatDigits (d : Decimal) : ∃ c s, d.floatDigits = c :: s ∧ c.isDigit = true := by
  have hne : digits d.coefficient ≠ [] := Nat.toDigits_ne_nil
  obtain ⟨c, s, hcs⟩ := List.exists_cons_of_ne_nil hne
  have hc : c.isDigit = true := isDigit_digits d.coefficient c (by simp [hcs])
  unfold floatDigits
  extract_lets ds point exponent
  have hds : ds = c :: s := hcs
  have htake {n : ℕ} (hn : 0 < n) : ds.take n = c :: s.take (n - 1) := by
    rw [hds, List.take_cons hn]
  split
  · exact ⟨_, _, rfl, rfl⟩
  split
  · split
    · exact ⟨c, _, by rw [hds]; rfl, hc⟩
    · split
      · rename_i hpoint
        exact ⟨c, _, by rw [htake (by omega)]; rfl, hc⟩
      · exact ⟨_, _, rfl, rfl⟩
  · exact ⟨c, _, by rw [htake Nat.one_pos]; rfl, hc⟩

/-- There is a point or a letter among them. -/
theorem exists_mark_floatDigits (d : Decimal) :
    '.' ∈ d.floatDigits ∨ 'e' ∈ d.floatDigits := by
  unfold floatDigits
  extract_lets ds point exponent
  split
  · exact .inl (by decide)
  split
  · refine .inl ?_
    split
    · simp
    · split <;> simp
  · exact .inr (by simp)

end Decimal

namespace Binary

open Float.Model

theorem unpack_normal {b : BitVec 64} {s : UnpackedFloat.Sign} {m : ℕ} {e : ℤ} {h : 0 < m}
    (hb : UnpackedFloat.unpack Format.binary64 b = .finite s m e h) : Decimal.Normal m e := by
  unfold UnpackedFloat.unpack at hb
  extract_lets mantissaVec exponentVec exponent signVec sign at hb
  have hm : mantissaVec.toNat < 2 ^ 52 := mantissaVec.isLt
  have hexp : exponent = exponentVec.toNat - 1075 := rfl
  by_cases hones : exponentVec = -BitVec.ofNat Format.binary64.exponentBits 1
  · rw [if_pos hones] at hb
    by_cases hempty : mantissaVec = BitVec.ofNat Format.binary64.mantissaBitsWithoutImplicit 0
    · rw [if_pos hempty] at hb
      cases hb
    · rw [if_neg hempty] at hb
      cases hb
  rw [if_neg hones] at hb
  by_cases hzero : exponentVec = BitVec.ofNat Format.binary64.exponentBits 0
  · rw [if_pos hzero] at hb
    have hnone : exponentVec.toNat = 0 := by rw [hzero]; rfl
    by_cases hempty : mantissaVec = BitVec.ofNat Format.binary64.mantissaBitsWithoutImplicit 0
    · rw [dif_pos hempty] at hb
      cases hb
    · rw [dif_neg hempty] at hb
      injection hb with _ hm' he
      subst hm' he
      exact ⟨h, by omega, by omega, by omega, .inr (by omega)⟩
  · rw [if_neg hzero] at hb
    injection hb with _ hm' he
    have hsome : exponentVec.toNat ≠ 0 := fun hnone => hzero (BitVec.eq_of_toNat_eq hnone)
    have hfinite : exponentVec.toNat ≠ 2047 := fun hall => hones (BitVec.eq_of_toNat_eq hall)
    have hlt : exponentVec.toNat < 2048 := exponentVec.isLt
    have hfull : m = 2 ^ 52 + mantissaVec.toNat := by
      rw [← hm', BitVec.toNat_append]
      exact (Nat.shiftLeft_add_eq_or_of_lt hm 1).symm
    exact ⟨h, by omega, by omega, by omega, .inl (by omega)⟩

theorem parts?_spec {x : Float} {p : Parts} (h : parts? x = some p) :
    p.mantissa = 0 ∧ p.exponent = 0 ∨ Decimal.Normal p.mantissa p.exponent := by
  unfold parts? at h
  cases hunpack : x.toModel.unpack with
  | finite sign m e hm =>
    rw [hunpack] at h
    cases h
    exact .inr (unpack_normal hunpack)
  | zero sign =>
    rw [hunpack] at h
    cases h
    exact .inl ⟨rfl, rfl⟩
  | infinity sign =>
    rw [hunpack] at h
    cases h
  | notANumber =>
    rw [hunpack] at h
    cases h

end Binary

theorem Decimal.size_ofFloat_pos {p : Binary.Parts} (h : Normal p.mantissa p.exponent) :
    0 < (ofFloat p).size :=
  (rounds_ofFloat h.pos h.lt h.le).pos h.pos

theorem Decimal.size_ofFloat_zero {p : Binary.Parts} (h : p.mantissa = 0) :
    (ofFloat p).size = 0 := by
  simp [ofFloat, h, size]

/-- The text of a finite float tells the float. -/
theorem parts_eq_of_floatText {x y : Float} {p q : Binary.Parts} (hp : Binary.parts? x = some p)
    (hq : Binary.parts? y = some q) (h : floatText x = floatText y) : p = q := by
  simp only [floatText, hp, hq, String.ofList_inj] at h
  obtain ⟨hsign, hdigits⟩ : p.negative = q.negative ∧
      (Decimal.ofFloat p).floatDigits = (Decimal.ofFloat q).floatDigits := by
    have hminus (d : Decimal) (s : List Char) : '-' :: s ≠ d.floatDigits := by
      obtain ⟨c, t, hct, hc⟩ := Decimal.head_floatDigits d
      rw [hct]
      rintro ⟨⟩
      cases hc
    cases hpn : p.negative <;> cases hqn : q.negative <;> rw [hpn, hqn] at h
    · exact ⟨rfl, h⟩
    · exact absurd h.symm (hminus _ _)
    · exact absurd h (hminus _ _)
    · exact ⟨rfl, (List.cons.inj h).2⟩
  have hsize : (Decimal.ofFloat p).size = (Decimal.ofFloat q).size := by
    rw [← Decimal.written_floatDigits, ← Decimal.written_floatDigits, hdigits]
  obtain ⟨hm, he⟩ : p.mantissa = q.mantissa ∧ p.exponent = q.exponent := by
    obtain ⟨hpm, hpe⟩ | hpn := Binary.parts?_spec hp <;>
      obtain ⟨hqm, hqe⟩ | hqn := Binary.parts?_spec hq
    · exact ⟨hpm.trans hqm.symm, hpe.trans hqe.symm⟩
    · rw [Decimal.size_ofFloat_zero hpm] at hsize
      exact absurd hsize (Decimal.size_ofFloat_pos hqn).ne
    · rw [Decimal.size_ofFloat_zero hqm] at hsize
      exact absurd hsize (Decimal.size_ofFloat_pos hpn).ne'
    · exact (Decimal.rounds_ofFloat hpn.pos hpn.lt hpn.le).unique
        (hsize ▸ Decimal.rounds_ofFloat hqn.pos hqn.lt hqn.le) hpn hqn
  cases p
  cases q
  cases hsign
  cases hm
  cases he
  rfl

end Liquid
