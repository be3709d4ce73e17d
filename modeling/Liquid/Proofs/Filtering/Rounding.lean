import Mathlib.Algebra.Order.Field.Power
import Mathlib.Data.Rat.Cast.Order
import Mathlib.Tactic.Linarith
import Mathlib.Tactic.Positivity
import Mathlib.Tactic.Ring
import Liquid.Filter.Number
import Liquid.Proofs.Comparing.Ordering
import Liquid.Proofs.Comparing.Shortest

/-!
# Rounding

A number is rounded as the decimal that its text writes.  To places before the point it becomes a
whole number, the multiple of a power of ten that is nearest to it.

**Grids.**  `Decimal.roundTo_bounds` places a number on the grid of `10^e`: its double lies between
the odd neighbours of twice the multiple that is chosen.  All else follows from these two bounds:
that the multiple is the nearest one, that it vanishes on a grid that is coarse enough, and how many
digits it has.

**Digits to work with.**  There are as many as the result can take, whatever the number and the
places, so that rounding never fails for want of them.  Neither does it leave the range of
exponents, unless the number has more digits than are written.

* `IsNearest`: what it means to be the nearest multiple.
* `Decimal.nearest_roundTo`: a decimal is rounded to it.
* `Decimal.toInt_roundTo_cut`: that the places are cut to a bound does not show.
* `Decimal.quantize?_eq`, `Decimal.quantizeWithin?_eq`: there are digits enough, and places.
* `Decimal.signed_text`: the decimal is the number that the text writes.
* `Filter.round_answers`: what the filter gives.
-/
namespace Liquid

/-! ## The nearest multiple -/

/-- A whole number is the multiple of a unit nearest to a number.  Of two that are equally near it
is the one farther from zero. -/
structure IsNearest (x : ℚ) (unit : ℕ) (n : ℤ) : Prop where
  dvd : (unit : ℤ) ∣ n
  least : ∀ m : ℤ, (unit : ℤ) ∣ m → |x - n| ≤ |x - m|
  away : ∀ m : ℤ, (unit : ℤ) ∣ m → m ≠ n → |x - m| = |x - n| → |m| < |n|

theorem IsNearest.neg {x : ℚ} {unit : ℕ} {n : ℤ} (h : IsNearest x unit n) :
    IsNearest (-x) unit (-n) := by
  have hdist (m : ℤ) : |-x - m| = |x - (-m : ℤ)| := by
    rw [← abs_neg]
    push_cast
    ring_nf
  refine ⟨h.dvd.neg_right, fun m hm => ?_, fun m hm hne heq => ?_⟩
  · rw [hdist, hdist, neg_neg]
    exact h.least _ hm.neg_right
  · rw [hdist, hdist, neg_neg] at heq
    rw [← abs_neg, abs_neg n]
    exact h.away _ hm.neg_right (fun he => hne (by rw [← he, neg_neg])) heq

/-- A number that is not negative, between the middles below and above a multiple. -/
theorem IsNearest.of_bounds {t : ℚ} {unit r : ℕ} (ht : 0 ≤ t)
    (low : (2 * r - 1) * (unit : ℚ) ≤ 2 * t) (high : 2 * t < (2 * r + 1) * (unit : ℚ)) :
    IsNearest t unit (r * unit : ℕ) := by
  have hunit : (0 : ℚ) < unit := by nlinarith
  have hnear : |t - (r * unit : ℚ)| ≤ unit / 2 := by
    rw [abs_le]
    constructor <;> nlinarith
  -- A multiple below is at least as far, and one above is farther.
  have hbelow {q : ℤ} (hq : q < r) : (unit : ℚ) / 2 ≤ t - unit * q := by
    have hle : (q : ℚ) + 1 ≤ r := by exact_mod_cast hq
    nlinarith [mul_le_mul_of_nonneg_left hle hunit.le]
  have habove {q : ℤ} (hq : (r : ℤ) < q) : (unit : ℚ) / 2 < unit * q - t := by
    have hle : (r : ℚ) + 1 ≤ q := by exact_mod_cast hq
    nlinarith [mul_le_mul_of_nonneg_left hle hunit.le]
  refine ⟨⟨r, by push_cast; ring⟩, ?_, ?_⟩
  · rintro m ⟨q, rfl⟩
    push_cast
    obtain hq | rfl | hq := lt_trichotomy q (r : ℤ)
    · exact hnear.trans ((hbelow hq).trans (le_abs_self _))
    · rw [Int.cast_natCast, mul_comm]
    · rw [abs_sub_comm t (unit * q)]
      exact hnear.trans ((habove hq).le.trans (le_abs_self _))
  · rintro m ⟨q, rfl⟩ hne heq
    push_cast at heq
    obtain hq | rfl | hq := lt_trichotomy q (r : ℤ)
    · -- Equally near from below: the number is the middle, and both multiples are on its side.
      have hfar := hbelow hq
      have hmiddle : t - unit * q ≤ unit / 2 := (le_abs_self _).trans (heq.trans_le hnear)
      have hr : 0 < r := by
        rcases Nat.eq_zero_or_pos r with rfl | hr
        · have hle : (q : ℚ) + 1 ≤ 0 := by exact_mod_cast hq
          nlinarith [mul_le_mul_of_nonneg_left hle hunit.le]
        · exact hr
      have hq0 : 0 ≤ q := by
        have hge : (r : ℚ) - 1 ≤ q := by nlinarith
        have hge' : (r : ℤ) - 1 ≤ q := by exact_mod_cast hge
        omega
      have hpos : (0 : ℤ) < unit := by exact_mod_cast hunit
      rw [abs_of_nonneg (mul_nonneg hpos.le hq0), abs_of_nonneg (Int.natCast_nonneg _)]
      push_cast
      nlinarith
    · exact absurd (by push_cast; ring) hne
    · have hfar := habove hq
      rw [abs_sub_comm t (unit * q)] at heq
      exact absurd (hfar.trans_le ((le_abs_self _).trans (heq.trans_le hnear))) (lt_irrefl _)

namespace Decimal

/-! ## Grids -/

theorem toRat_eq (d : Decimal) : d.toRat = if d.negative then -d.size else d.size := by
  have hten : (10 : ℚ) ≠ 0 := by norm_num
  have hvalue (c : ℤ) : (if 0 ≤ d.exponent then ((c * Nat.pow 10 d.exponent.toNat : ℤ) : ℚ)
      else mkRat c (Nat.pow 10 (-d.exponent).toNat)) = c * 10 ^ d.exponent := by
    have hpow := pow_toNat hten d.exponent
    split
    · rename_i hexp
      rw [show (-d.exponent).toNat = 0 by omega, pow_zero, one_mul] at hpow
      push_cast [Nat.pow_eq]
      rw [hpow]
    · rename_i hexp
      rw [show d.exponent.toNat = 0 by omega, pow_zero] at hpow
      rw [Rat.mkRat_eq_div, Nat.pow_eq, Nat.cast_pow, Nat.cast_ofNat, div_eq_iff (by positivity),
        mul_assoc, mul_comm ((10 : ℚ) ^ d.exponent), ← hpow, mul_one]
  unfold toRat
  dsimp only
  rw [hvalue, size]
  split
  · push_cast
    ring
  · push_cast
    ring

theorem size_nonneg (d : Decimal) : 0 ≤ d.size := by
  unfold size
  positivity

/-- Twice a number lies between the odd neighbours of twice its multiple. -/
theorem roundTo_bounds (d : Decimal) (e : ℤ) :
    (2 * (d.roundTo e).coefficient - 1) * (10 : ℚ) ^ e ≤ 2 * d.size ∧
      2 * d.size < (2 * (d.roundTo e).coefficient + 1) * (10 : ℚ) ^ e := by
  have hten : (10 : ℚ) ≠ 0 := by norm_num
  have hgrid : (0 : ℚ) < 10 ^ e := by positivity
  unfold roundTo size
  split
  · -- The number is on the grid.
    rename_i hfine
    have hpow : (10 : ℚ) ^ (d.exponent - e).toNat * 10 ^ e = 10 ^ d.exponent := by
      rw [← zpow_natCast, Int.toNat_of_nonneg (by omega), ← zpow_add₀ hten, sub_add_cancel]
    simp only [Nat.pow_eq, Nat.cast_mul, Nat.cast_pow, Nat.cast_ofNat]
    constructor <;> nlinarith
  · rename_i hcoarse
    extract_lets unit
    have hpow : (unit : ℚ) * 10 ^ d.exponent = 10 ^ e := by
      simp only [unit, Nat.pow_eq, Nat.cast_pow, Nat.cast_ofNat]
      rw [← zpow_natCast, Int.toNat_of_nonneg (by omega), ← zpow_add₀ hten, sub_add_cancel]
    have hunit : 0 < 2 * unit := Nat.mul_pos two_pos (Nat.pow_pos (by decide))
    have hscale : (0 : ℚ) < 10 ^ d.exponent := by positivity
    generalize hr : (2 * d.coefficient + unit) / (2 * unit) = r
    have hlow : r * (2 * unit) ≤ 2 * d.coefficient + unit := hr ▸ Nat.div_mul_le_self _ _
    have hhigh : 2 * d.coefficient + unit < (r + 1) * (2 * unit) :=
      Nat.lt_mul_of_div_lt (hr ▸ Nat.lt_succ_self r) hunit
    have hlow' : ((r : ℚ)) * (2 * unit) ≤ 2 * d.coefficient + unit := by exact_mod_cast hlow
    have hhigh' : 2 * (d.coefficient : ℚ) + unit < (r + 1) * (2 * unit) := by exact_mod_cast hhigh
    dsimp only
    rw [← hpow]
    constructor
    · nlinarith [mul_le_mul_of_nonneg_right hlow' hscale.le]
    · nlinarith [mul_lt_mul_of_pos_right hhigh' hscale]

theorem negative_roundTo (d : Decimal) (e : ℤ) : (d.roundTo e).negative = d.negative := by
  unfold roundTo
  split <;> rfl

theorem exponent_roundTo (d : Decimal) (e : ℤ) : (d.roundTo e).exponent = e := by
  unfold roundTo
  split <;> rfl

theorem toInt_roundTo (d : Decimal) (e : ℕ) : (d.roundTo e).toInt =
    if d.negative then -(((d.roundTo e).coefficient * 10 ^ e : ℕ) : ℤ)
    else ((d.roundTo e).coefficient * 10 ^ e : ℕ) := by
  rw [toInt, negative_roundTo, exponent_roundTo, Int.toNat_natCast]
  push_cast
  rfl

/-- A decimal is rounded to the multiple of a power of ten that is nearest to it. -/
theorem nearest_roundTo (d : Decimal) (e : ℕ) :
    IsNearest d.toRat (10 ^ e) (d.roundTo e).toInt := by
  obtain ⟨hlow, hhigh⟩ := d.roundTo_bounds e
  have hnear : IsNearest d.size (10 ^ e) ((d.roundTo e).coefficient * 10 ^ e : ℕ) := by
    refine .of_bounds d.size_nonneg ?_ ?_
    · rwa [Nat.cast_pow, Nat.cast_ofNat, ← zpow_natCast]
    · rwa [Nat.cast_pow, Nat.cast_ofNat, ← zpow_natCast]
  rw [toRat_eq, toInt_roundTo]
  split
  · exact hnear.neg
  · exact hnear

/-- Where the unit of a grid is more than twice a number, nothing is left of it. -/
theorem toInt_roundTo_of_small {d : Decimal} {e : ℕ} (h : 2 * d.size < 10 ^ (e : ℤ)) :
    (d.roundTo e).toInt = 0 := by
  have hgrid : (0 : ℚ) < 10 ^ (e : ℤ) := by positivity
  have hlt : 2 * ((d.roundTo e).coefficient : ℚ) - 1 < 1 := by
    have hbound := (d.roundTo_bounds e).1.trans_lt h
    by_contra hge
    nlinarith [mul_le_mul_of_nonneg_right (not_lt.1 hge) hgrid.le]
  have hzero : (d.roundTo e).coefficient = 0 := by
    have hone : ((d.roundTo e).coefficient : ℚ) < 1 := by linarith
    exact Nat.lt_one_iff.1 (by exact_mod_cast hone)
  rw [toInt_roundTo, hzero]
  split <;> simp

/-! ## Digits -/

theorem lt_pow_length (n : ℕ) : n < 10 ^ (digits n).length :=
  (Nat.length_toDigits_le_iff (by decide) (length_digits_pos n)).1 le_rfl

theorem length_digits_le {n k : ℕ} (h : n ≤ 10 ^ k) : (digits n).length ≤ k + 1 := by
  refine (Nat.length_toDigits_le_iff (by decide) k.succ_pos).2 (h.trans_lt ?_)
  exact Nat.pow_lt_pow_right (by decide) k.lt_succ_self

/-- The first digit tells the size from above. -/
theorem size_lt (d : Decimal) : d.size < 10 ^ (d.adjusted + 1) := by
  have hten : (10 : ℚ) ≠ 0 := by norm_num
  have hc : (d.coefficient : ℚ) < 10 ^ ((digits d.coefficient).length : ℤ) := by
    rw [zpow_natCast]
    exact_mod_cast lt_pow_length d.coefficient
  rw [size, adjusted, sub_add_cancel, add_comm, zpow_add₀ hten]
  exact mul_lt_mul_of_pos_right hc (by positivity)

/-- On a grid a number has as many digits as there are between its first digit and the grid, and one
more if it is rounded up to a power of ten. -/
theorem length_roundTo_le (d : Decimal) (e : ℤ) :
    ((digits (d.roundTo e).coefficient).length : ℤ) ≤ max (d.adjusted - e + 1) 0 + 1 := by
  obtain ⟨k, hk⟩ : ∃ k : ℕ, (k : ℤ) = max (d.adjusted - e + 1) 0 :=
    ⟨_, Int.toNat_of_nonneg (le_max_right _ _)⟩
  have hgrid : (0 : ℚ) < 10 ^ e := by positivity
  have hsize : d.size < 10 ^ (k : ℤ) * 10 ^ e := by
    rw [← zpow_add₀ (by norm_num)]
    exact d.size_lt.trans_le (zpow_le_zpow_right₀ (by norm_num) (by omega))
  have hlt : 2 * ((d.roundTo e).coefficient : ℚ) - 1 < 2 * 10 ^ k := by
    have hlow := (d.roundTo_bounds e).1
    rw [zpow_natCast] at hsize
    by_contra hge
    nlinarith [mul_le_mul_of_nonneg_right (not_lt.1 hge) hgrid.le]
  have hle : (d.roundTo e).coefficient ≤ 10 ^ k := by
    have hlt' : 2 * (d.roundTo e).coefficient < 2 * 10 ^ k + 1 := by
      have : 2 * ((d.roundTo e).coefficient : ℚ) < 2 * 10 ^ k + 1 := by linarith
      exact_mod_cast this
    omega
  have := length_digits_le hle
  omega

/-- A number is put on a grid if there are two more digits to work with than places from its first
digit, or from the point, to the point, or to the grid. -/
theorem quantize?_eq {d : Decimal} {e precision : ℤ}
    (h : max d.adjusted 0 + max (-e) 0 + 2 ≤ precision) :
    d.quantize? e precision = some (d.roundTo e) := by
  have hlength := d.length_roundTo_le e
  unfold quantize?
  dsimp only
  split
  · rfl
  · rw [if_neg (by omega), if_neg (by omega)]

/-! ## The bounds on exponents -/

/-- The greatest place that a digit may have where decimals are calculated with. -/
def mostExponent : ℤ := 999999

/-- The multiple of `10^e` nearest to the number, where decimals have bounds: on the digits of the
result, on the grid, and on the first digits of the number and of the result. -/
def quantizeWithin? (d : Decimal) (e precision : ℤ) : Option Decimal :=
  if e < -mostExponent - (precision - 1) ∨ mostExponent < e then none
  else if mostExponent < d.adjusted then none
  else (d.quantize? e precision).filter fun rounded => decide (rounded.adjusted ≤ mostExponent)

/-- Rounding moves the first digit by one place at most, or to the grid. -/
theorem adjusted_roundTo_le (d : Decimal) (e : ℤ) :
    (d.roundTo e).adjusted ≤ max (d.adjusted + 1) e := by
  have hlength := d.length_roundTo_le e
  rw [adjusted, exponent_roundTo]
  omega

/-- Within the bounds on exponents lies all that is of a reasonable size. -/
theorem quantizeWithin?_eq {d : Decimal} {e precision : ℤ}
    (h : max d.adjusted 0 + max (-e) 0 + 2 ≤ precision) (hlow : -mostExponent ≤ e)
    (hhigh : e ≤ mostExponent) (hd : d.adjusted < mostExponent) :
    d.quantizeWithin? e precision = some (d.roundTo e) := by
  have hresult := d.adjusted_roundTo_le e
  unfold quantizeWithin?
  rw [if_neg (by omega), if_neg (by omega), quantize?_eq h, Option.filter_some,
    if_pos (decide_eq_true (by omega))]

/-- The first digit tells the size from below, unless the number is zero. -/
theorem pow_adjusted_le {d : Decimal} (h : 0 < d.coefficient) : 10 ^ d.adjusted ≤ d.size := by
  have hten : (10 : ℚ) ≠ 0 := by norm_num
  have hlength := length_digits_pos d.coefficient
  have hc : (10 : ℚ) ^ (((digits d.coefficient).length - 1 : ℕ) : ℤ) ≤ d.coefficient := by
    rw [zpow_natCast]
    exact_mod_cast pow_length_le h
  rw [size, adjusted, show d.exponent + (digits d.coefficient).length - 1 =
    ((digits d.coefficient).length - 1 : ℕ) + d.exponent by omega, zpow_add₀ hten]
  exact mul_le_mul_of_nonneg_right hc (by positivity)

/-- No float has more than 337 digits before the point.  (The most that one has are 309.) -/
theorem adjusted_ofFloat_le {x : Float} {p : Binary.Parts} (h : Binary.parts? x = some p) :
    (ofFloat p).adjusted ≤ 336 := by
  obtain ⟨hzero, -⟩ | hnormal := Binary.parts?_spec h
  · rw [ofFloat, if_pos hzero]
    simp [adjusted, digits]
  · -- The powers have names, as they are too large to be computed.
    obtain ⟨bits, hbits⟩ : ∃ bits : ℕ, bits = 1024 := ⟨_, rfl⟩
    obtain ⟨most, hmost⟩ : ∃ most : ℕ, most = 336 := ⟨_, rfl⟩
    have hmantissa : (p.mantissa : ℚ) + 1 ≤ 2 ^ 53 := by exact_mod_cast hnormal.lt
    have hexponent : (2 : ℚ) ^ (53 + p.exponent) ≤ 2 ^ (bits : ℤ) :=
      zpow_le_zpow_right₀ one_le_two (by have := hnormal.most; omega)
    have hpowers : 2 ^ bits ≤ 10 ^ most :=
      two_pow_le (show 2 ^ 93 ≤ 10 ^ 28 by decide) 12 (by omega) (by omega)
    have hunit : (0 : ℚ) < 2 ^ p.exponent := by positivity
    have hsize : (ofFloat p).size ≤ 10 ^ (most : ℤ) := calc
      (ofFloat p).size ≤ (p.mantissa + 1) * 2 ^ p.exponent := by
        have hhigh := (rounds_ofFloat hnormal.pos hnormal.lt hnormal.le).high
        push_cast at hhigh
        linarith
      _ ≤ 2 ^ 53 * 2 ^ p.exponent := mul_le_mul_of_nonneg_right hmantissa hunit.le
      _ = 2 ^ (53 + p.exponent) := by rw [zpow_add₀ two_ne_zero]; norm_cast
      _ ≤ 2 ^ (bits : ℤ) := hexponent
      _ ≤ 10 ^ (most : ℤ) := by
        rw [zpow_natCast, zpow_natCast]
        exact_mod_cast hpowers
    have hpos : 0 < (ofFloat p).coefficient := by
      by_contra hnone
      have hsize := size_ofFloat_pos hnormal
      rw [size, Nat.eq_zero_of_not_pos hnone, Nat.cast_zero, zero_mul] at hsize
      exact lt_irrefl _ hsize
    have hle := (zpow_le_zpow_iff_right₀ (by norm_num)).1 ((pow_adjusted_le hpos).trans hsize)
    omega

/-! ## The bound on the places -/

/-- Beyond the bound on the places before the point nothing is left of the number, so that the bound
does not show. -/
theorem toInt_roundTo_cut (d : Decimal) {places : ℤ} (h : places ≤ 0) :
    (d.roundTo (-Filter.cutPlaces (max d.adjusted 0) places)).toInt =
      (d.roundTo (-places)).toInt := by
  obtain ⟨m, hm⟩ : ∃ m : ℕ, (m : ℤ) = max d.adjusted 0 :=
    ⟨_, Int.toNat_of_nonneg (le_max_right _ _)⟩
  have hcut : Filter.cutPlaces (max d.adjusted 0) places = max places (-(m + 2)) := by
    unfold Filter.cutPlaces Filter.mostPlaces
    omega
  rw [hcut]
  obtain hin | hout := le_or_gt (-(m + 2) : ℤ) places
  · rw [max_eq_left hin]
  · have hsmall {e : ℕ} (he : m + 2 ≤ e) : 2 * d.size < 10 ^ (e : ℤ) := by
      have hsize : d.size < 10 ^ (m + 1) := by
        have hle : (10 : ℚ) ^ (d.adjusted + 1) ≤ 10 ^ ((m + 1 : ℕ) : ℤ) :=
          zpow_le_zpow_right₀ (by norm_num) (by omega)
        rw [zpow_natCast] at hle
        exact d.size_lt.trans_le hle
      have hgrid : (10 : ℚ) ^ (m + 1) * 10 ≤ 10 ^ e := by
        rw [← pow_succ]
        exact pow_le_pow_right₀ (by norm_num) he
      rw [zpow_natCast]
      linarith [d.size_nonneg]
    obtain ⟨e, he⟩ : ∃ e : ℕ, -places = e := ⟨_, (Int.toNat_of_nonneg (by omega)).symm⟩
    rw [max_eq_right hout.le, neg_neg, he, toInt_roundTo_of_small (hsmall (by omega)),
      show (m + 2 : ℤ) = (m + 2 : ℕ) by push_cast; rfl, toInt_roundTo_of_small (hsmall le_rfl)]

/-! ## The number that a text writes -/

/-- The number that a text writes, perhaps with a minus before it. -/
def signed : List Char → ℚ
  | '-' :: s => -written s
  | s => written s

theorem signed_of_isDigit {c : Char} {s : List Char} (h : c.isDigit = true) :
    signed (c :: s) = written (c :: s) := by
  unfold signed
  split
  · rename_i heq
    obtain ⟨rfl, -⟩ := List.cons.inj heq
    cases h
  · rfl

theorem written_digits (n : ℕ) : written (digits n) = n := by
  have h := written_append (digits n) [] (isDigit_digits n) (by simp) (.inr ⟨rfl, rfl⟩)
    (show ∀ c ∈ [].head?, c = 'e' by simp)
  rw [List.append_nil, run_digits] at h
  simpa [exponentOf] using h

/-- The text of a finite number writes the decimal that the number is taken for. -/
theorem signed_text {n : Number} (h : n.isFinite = true) :
    signed n.text.toList = n.toDecimal.toRat := by
  rw [toRat_eq]
  cases n with
  | int n =>
    cases n with
    | ofNat k =>
      obtain ⟨c, s, hcs⟩ := List.exists_cons_of_ne_nil (show digits k ≠ [] from Nat.toDigits_ne_nil)
      have htext : (Number.int (.ofNat k)).text.toList = digits k := String.toList_ofList
      rw [htext, hcs, signed_of_isDigit (isDigit_digits k c (by simp [hcs])), ← hcs, written_digits]
      simp [Number.toDecimal, ofInt, size]
    | negSucc k =>
      have htext : (Number.int (.negSucc k)).text.toList = '-' :: digits (k + 1) := by
        simp [Number.text, toString, Int.repr, Nat.repr, digits]
      rw [htext]
      change -written (digits (k + 1)) = _
      rw [written_digits]
      simp [Number.toDecimal, ofInt, size]
  | float x =>
    have hparts : (Binary.parts? x).isSome = true := (Binary.isSome_parts? x).trans h
    obtain ⟨p, hp⟩ := Option.isSome_iff_exists.1 hparts
    have hnegative : (ofFloat p).negative = p.negative := by
      unfold ofFloat
      split <;> rfl
    obtain ⟨c, s, hcs, hc⟩ := (ofFloat p).head_floatDigits
    simp only [Number.text, floatText, hp, Number.toDecimal, String.toList_ofList, hnegative,
      ← written_floatDigits]
    cases p.negative
    · simp only [Bool.false_eq_true, if_false, List.nil_append]
      rw [hcs, signed_of_isDigit hc]
    · rfl

end Decimal

namespace Filter

theorem finite_numberOf (v : Value) : (numberOf v).isFinite = true := by
  unfold numberOf
  cases h : v.number? with
  | none => rfl
  | some n => exact Value.finite_of_number? h

/-- There are always digits enough to work with. -/
theorem enough_workingDigits (usual magnitude places : ℤ) :
    magnitude + max (- -places) 0 + 2 ≤ workingDigits usual magnitude places := by
  unfold workingDigits
  omega

/-- The filter never lacks digits. -/
theorem round_eq (v precision : Value) : round v precision =
    let d := (numberOf v).toDecimal
    let rounded := d.roundTo (-cutPlaces (max d.adjusted 0) (precision.toInt 0))
    if precision.toInt 0 ≤ 0 then pure (.int rounded.toInt)
    else finite "round" (some (.float rounded.toFloat)) := by
  unfold round
  dsimp only
  rw [Decimal.quantize?_eq (enough_workingDigits _ _ _)]

/-- The most digits that a whole number is written with. -/
def mostDigits : ℕ := 4300

theorem adjusted_toDecimal_lt {n : Number}
    (h : ∀ i, n = .int i → (Decimal.digits i.natAbs).length ≤ mostDigits) :
    n.toDecimal.adjusted < mostDigits := by
  cases n with
  | int i =>
    have hi := h i rfl
    simp only [Number.toDecimal, Decimal.ofInt, Decimal.adjusted]
    omega
  | float x =>
    simp only [Number.toDecimal, mostDigits]
    split
    · rename_i p hp
      have := Decimal.adjusted_ofFloat_le hp
      omega
    · simp [Decimal.ofInt, Decimal.adjusted, Decimal.digits]

/-- A number is rounded to so many places before the point as the multiple of the power of ten that
is nearest to the number that its text writes, and of two the one farther from zero.  Whatever the
places, before or behind the point, and whatever the usual number of digits, there are digits enough
to work with, and the bounds on exponents are met as well by a number that can be written. -/
theorem round_answers (v precision : Value) :
    let n := numberOf v
    let d := n.toDecimal
    let magnitude := max d.adjusted 0
    let places := precision.toInt 0
    let cut := cutPlaces magnitude places
    (places ≤ 0 → ∃ k, round v precision = .ok (.int k) ∧
      IsNearest (Decimal.signed n.text.toList) (10 ^ (-places).toNat) k) ∧
    ∀ usual : ℤ,
      d.quantize? (-cut) (workingDigits usual magnitude cut) = some (d.roundTo (-cut)) ∧
      ((∀ i, n = .int i → (Decimal.digits i.natAbs).length ≤ mostDigits) →
        d.quantizeWithin? (-cut) (workingDigits usual magnitude cut) =
          some (d.roundTo (-cut))) := by
  extract_lets n d magnitude places cut
  refine ⟨fun hplaces => ⟨(d.roundTo (-places)).toInt, ?_, ?_⟩,
    fun usual => ⟨?_, fun hdigits => ?_⟩⟩
  · rw [round_eq]
    dsimp only
    rw [if_pos hplaces, Decimal.toInt_roundTo_cut d hplaces]
    rfl
  · have hnear := d.nearest_roundTo (-places).toNat
    rwa [Int.toNat_of_nonneg (by omega), ← Decimal.signed_text (finite_numberOf v)] at hnear
  · exact Decimal.quantize?_eq (enough_workingDigits _ _ _)
  · have hfirst : d.adjusted < mostDigits := adjusted_toDecimal_lt hdigits
    have hcut : -(magnitude + 2) ≤ cut ∧ cut ≤ mostPlaces := by
      unfold cut cutPlaces mostPlaces
      omega
    unfold mostDigits at hfirst
    unfold mostPlaces at hcut
    refine Decimal.quantizeWithin?_eq (enough_workingDigits _ _ _) ?_ ?_ ?_
    all_goals
      unfold Decimal.mostExponent
      omega

theorem round_answers_half :
    round (.int (-1250)) (.int (-2)) = .ok (.int (-1300)) ∧ IsNearest (-1250) 100 (-1300) ∧
      (Decimal.ofInt (-1250)).quantizeWithin? 2 28 = some ⟨true, 13, 2⟩ := by
  have h := round_answers (.int (-1250)) (.int (-2))
  obtain ⟨k, hround, hnear⟩ := h.1 (by decide)
  have hk : round (.int (-1250)) (.int (-2)) = .ok (.int (-1300)) := by rfl
  have hx : Decimal.signed (numberOf (.int (-1250))).text.toList = -1250 := by
    rw [Decimal.signed_text rfl]
    rfl
  rw [hk] at hround
  cases hround
  rw [hx] at hnear
  refine ⟨hk, hnear, ?_⟩
  refine ((h.2 28).2 fun i hi => ?_).trans ?_
  · cases hi
    decide
  · rfl

end Filter

end Liquid
