import Mathlib.Algebra.Order.Field.Power
import Mathlib.Data.Int.Log
import Mathlib.Data.Rat.Floor
import Mathlib.Tactic.Linarith
import Mathlib.Tactic.Positivity
import Mathlib.Tactic.Ring
import OrderedRelations.Number.Binary64

/-!
# Rounding to a binary format

The numbers of a format near a rational are the multiples of a power of two, and rounding takes the
nearest of them. So it never turns two rationals round, keeps the numbers of the format as they are,
and is off by half that power at most. It has an answer up to halfway from the greatest number of the
format to the power of two that is too large.
-/

namespace OrderedRelations

/-- The whole number nearest to a rational, the even one of two. -/
structure IsNearest (x : ℚ) (n : ℤ) : Prop where
  close : |x - n| ≤ 1 / 2
  even_of_tie : |x - n| = 1 / 2 → Even n

namespace IsNearest

variable {x y : ℚ} {m n : ℤ}

theorem intCast (n : ℤ) : IsNearest n n :=
  ⟨by norm_num, fun h => by norm_num at h⟩

theorem neg (h : IsNearest x n) : IsNearest (-x) (-n) := by
  have habs : |-x - (-n : ℤ)| = |x - n| := by
    rw [Int.cast_neg, neg_sub_neg, abs_sub_comm]
  exact ⟨habs ▸ h.close, fun htie => (h.even_of_tie (habs ▸ htie)).neg⟩

/-- Two neighbours have one half between them, and both cannot be even. -/
theorem mono (hx : IsNearest x m) (hy : IsNearest y n) (hle : x ≤ y) : m ≤ n := by
  by_contra hlt
  have hstep : (n : ℚ) + 1 ≤ m := by exact_mod_cast not_le.mp hlt
  have hm := (abs_le.mp hx.close).1
  have hn := (abs_le.mp hy.close).2
  have hxm : |x - m| = 1 / 2 := by
    rw [show x - m = -(1 / 2) by linarith]
    norm_num
  have hyn : |y - n| = 1 / 2 := by
    rw [show y - n = 1 / 2 by linarith]
    norm_num
  have hmn : m = n + 1 := by
    have : (m : ℚ) = n + 1 := by linarith
    exact_mod_cast this
  have heven := hx.even_of_tie hxm
  rw [hmn] at heven
  exact (Int.not_even_iff_odd.mpr (hy.even_of_tie hyn).add_one) heven

end IsNearest

namespace Binary64

variable {num den : ℕ}

theorem isNearest_roundHalfEven (num : ℕ) (hden : 0 < den) :
    IsNearest ((num : ℚ) / den) (roundHalfEven num den : ℕ) := by
  have hpos : (0 : ℚ) < den := by exact_mod_cast hden
  have hsplit : (num : ℚ) / den = (num / den : ℕ) + (num % den : ℕ) / den := by
    have hnum : (num : ℚ) = den * (num / den : ℕ) + (num % den : ℕ) := by
      exact_mod_cast (Nat.div_add_mod num den).symm
    rw [div_eq_iff hpos.ne', add_mul, div_mul_cancel₀ _ hpos.ne', mul_comm, ← hnum]
  have hless : ((num % den : ℕ) : ℚ) / den < 1 / 2 ↔ 2 * (num % den) < den := by
    rw [div_lt_div_iff₀ hpos two_pos, one_mul, mul_comm]
    exact_mod_cast Iff.rfl
  have hmore : 1 / 2 < ((num % den : ℕ) : ℚ) / den ↔ den < 2 * (num % den) := by
    rw [div_lt_div_iff₀ two_pos hpos, one_mul, mul_comm]
    exact_mod_cast Iff.rfl
  have hnonneg : 0 ≤ ((num % den : ℕ) : ℚ) / den := by positivity
  have hone : ((num % den : ℕ) : ℚ) / den < 1 := by
    rw [div_lt_one hpos]
    exact_mod_cast Nat.mod_lt num hden
  rw [hsplit]
  unfold roundHalfEven
  generalize ((num % den : ℕ) : ℚ) / den = part at *
  generalize num / den = quotient
  dsimp only
  split_ifs with hlow hhigh
  · have hlt := hless.mpr hlow
    have habs : |(quotient : ℚ) + part - (quotient : ℤ)| < 1 / 2 := by
      rw [Int.cast_natCast, add_sub_cancel_left, abs_of_nonneg hnonneg]
      exact hlt
    exact ⟨habs.le, fun htie => absurd htie habs.ne⟩
  · have hlt := hmore.mpr hhigh
    have habs : |(quotient : ℚ) + part - ((quotient + 1 : ℕ) : ℤ)| < 1 / 2 := by
      push_cast
      rw [abs_lt]
      constructor <;> linarith
    exact ⟨habs.le, fun htie => absurd htie habs.ne⟩
  · have hhalf : part = 1 / 2 :=
      le_antisymm (not_lt.mp (mt hmore.mp hhigh)) (not_lt.mp (mt hless.mp hlow))
    refine ⟨?_, fun _ => ?_⟩
    · have hparity : ((quotient % 2 : ℕ) : ℚ) ≤ 1 := by
        exact_mod_cast Nat.lt_succ_iff.mp (Nat.mod_lt quotient two_pos)
      have hparity' : (0 : ℚ) ≤ (quotient % 2 : ℕ) := by positivity
      rw [hhalf, Int.cast_natCast, Nat.cast_add, abs_le]
      constructor <;> linarith
    · rw [Int.even_coe_nat, Nat.even_iff]
      omega

theorem scale_eq (units : ℕ) (e : ℤ) : scale units e = units * 2 ^ e := by
  unfold scale
  split_ifs with he
  · obtain ⟨n, rfl⟩ := Int.eq_ofNat_of_zero_le he
    simp [Rat.mkRat_eq_div]
  · obtain ⟨n, hn⟩ := Int.eq_ofNat_of_zero_le (show 0 ≤ -e by omega)
    obtain rfl : e = -n := by omega
    simp [Rat.mkRat_eq_div, zpow_neg, div_eq_mul_inv]

theorem isNearest_nearestUnits (hden : 0 < den) (e : ℤ) :
    IsNearest ((num : ℚ) / den / 2 ^ e) (nearestUnits num den e : ℕ) := by
  unfold nearestUnits
  split_ifs with he
  · obtain ⟨n, rfl⟩ := Int.eq_ofNat_of_zero_le he
    have hround := isNearest_roundHalfEven num (Nat.mul_pos hden (Nat.two_pow_pos n))
    rw [Nat.cast_mul, ← div_div, Nat.cast_pow, ← zpow_natCast] at hround
    exact hround
  · obtain ⟨n, hn⟩ := Int.eq_ofNat_of_zero_le (show 0 ≤ -e by omega)
    obtain rfl : e = -n := by omega
    have hround := isNearest_roundHalfEven (num * 2 ^ n) hden
    rw [Nat.cast_mul, Nat.cast_pow, mul_div_right_comm] at hround
    rw [zpow_neg, zpow_natCast, div_inv_eq_mul, neg_neg, Int.toNat_natCast]
    exact hround

theorem belowPowerOfTwo_iff (num : ℕ) (hden : 0 < den) (e : ℤ) :
    belowPowerOfTwo num den e = true ↔ (num : ℚ) / den < 2 ^ e := by
  have hpos : (0 : ℚ) < den := by exact_mod_cast hden
  rw [div_lt_iff₀ hpos]
  unfold belowPowerOfTwo
  split_ifs with he
  · obtain ⟨n, rfl⟩ := Int.eq_ofNat_of_zero_le he
    rw [decide_eq_true_eq, zpow_natCast, mul_comm (2 ^ n : ℚ)]
    exact_mod_cast Iff.rfl
  · obtain ⟨n, hn⟩ := Int.eq_ofNat_of_zero_le (show 0 ≤ -e by omega)
    obtain rfl : e = -n := by omega
    rw [decide_eq_true_eq, zpow_neg, zpow_natCast, inv_mul_eq_div, lt_div_iff₀ (by positivity),
      neg_neg, Int.toNat_natCast]
    exact_mod_cast Iff.rfl

theorem leadingExponent_eq (hnum : 0 < num) (hden : 0 < den) :
    leadingExponent num den = Int.log 2 ((num : ℚ) / den) := by
  have hpos : (0 : ℚ) < den := by exact_mod_cast hden
  have hquotient : (0 : ℚ) < num / den := div_pos (by exact_mod_cast hnum) hpos
  have hnum₁ : (2 : ℚ) ^ (num.log2 : ℤ) ≤ num := by
    rw [zpow_natCast]
    exact_mod_cast Nat.log2_self_le hnum.ne'
  have hnum₂ : (num : ℚ) < 2 ^ ((num.log2 : ℤ) + 1) := by
    exact_mod_cast Nat.lt_log2_self (n := num)
  have hden₁ : (2 : ℚ) ^ (den.log2 : ℤ) ≤ den := by
    rw [zpow_natCast]
    exact_mod_cast Nat.log2_self_le hden.ne'
  have hden₂ : (den : ℚ) < 2 ^ ((den.log2 : ℤ) + 1) := by
    exact_mod_cast Nat.lt_log2_self (n := den)
  have hlower : (num.log2 : ℤ) - den.log2 - 1 ≤ Int.log 2 ((num : ℚ) / den) := by
    rw [← Int.zpow_le_iff_le_log one_lt_two hquotient, Nat.cast_ofNat, sub_sub,
      zpow_sub₀ two_ne_zero]
    gcongr
  have hupper : Int.log 2 ((num : ℚ) / den) < (num.log2 : ℤ) + 1 - den.log2 := by
    rw [← Int.lt_zpow_iff_log_lt one_lt_two hquotient, Nat.cast_ofNat, zpow_sub₀ two_ne_zero]
    exact div_lt_div₀ hnum₂ hden₁ (by positivity) (by positivity)
  have hbelow := belowPowerOfTwo_iff num hden ((num.log2 : ℤ) - den.log2)
  have hlog := Int.lt_zpow_iff_log_lt (b := 2) one_lt_two hquotient
    (x := (num.log2 : ℤ) - den.log2)
  rw [Nat.cast_ofNat] at hlog
  rw [hlog] at hbelow
  unfold leadingExponent
  dsimp only
  split_ifs with h
  · have := hbelow.mp h
    omega
  · have := mt hbelow.mpr h
    omega

/-- The exponent of the multiples that the numbers of a format are near a rational. -/
def spacing (format : BinaryFormat) (x : ℚ) : ℤ :=
  max (Int.log 2 |x| - format.digits + 1) format.leastExponent

/-- What a rational becomes in a format without an upper limit. -/
def RoundsTo (format : BinaryFormat) (x r : ℚ) : Prop :=
  ∃ n : ℤ, r = n * 2 ^ spacing format x ∧ IsNearest (x / 2 ^ spacing format x) n

variable {format : BinaryFormat} {x y r s : ℚ}

theorem RoundsTo.neg (h : RoundsTo format x r) : RoundsTo format (-x) (-r) := by
  obtain ⟨n, hr, hn⟩ := h
  have hspacing : spacing format (-x) = spacing format x := by rw [spacing, abs_neg, spacing]
  refine ⟨-n, ?_, ?_⟩
  · rw [hspacing, hr, Int.cast_neg, neg_mul]
  · rw [hspacing, neg_div]
    exact hn.neg

theorem roundsTo_roundMagnitude (hden : 0 < den) :
    RoundsTo format ((num : ℚ) / den) (roundMagnitude format num den) := by
  unfold roundMagnitude
  split_ifs with hzero
  · subst hzero
    refine ⟨0, by rw [Int.cast_zero, zero_mul], ?_⟩
    rw [Nat.cast_zero, zero_div, zero_div]
    exact IsNearest.intCast 0
  · have hnum : 0 < num := Nat.pos_of_ne_zero hzero
    have hspacing : unitExponent format num den = spacing format ((num : ℚ) / den) := by
      rw [unitExponent, spacing, leadingExponent_eq hnum hden, abs_of_nonneg (by positivity)]
    refine ⟨nearestUnits num den (spacing format ((num : ℚ) / den)), ?_, ?_⟩
    · rw [hspacing, scale_eq, Int.cast_natCast]
    · exact isNearest_nearestUnits hden _

/-- Rounding errs by half the spacing at most. -/
theorem RoundsTo.abs_sub_le (h : RoundsTo format x r) :
    |r - x| ≤ 2 ^ (spacing format x) / 2 := by
  obtain ⟨n, rfl, hn⟩ := h
  have hpos : (0 : ℚ) < 2 ^ spacing format x := by positivity
  calc |n * 2 ^ spacing format x - x|
      = |x / 2 ^ spacing format x - n| * 2 ^ spacing format x := by
        rw [← abs_of_pos hpos, ← abs_mul, abs_of_pos hpos, sub_mul, div_mul_cancel₀ _ hpos.ne',
          abs_sub_comm]
    _ ≤ 1 / 2 * 2 ^ spacing format x := mul_le_mul_of_nonneg_right hn.close hpos.le
    _ = 2 ^ spacing format x / 2 := one_div_mul_eq_div _ _

/-- Rounding stays below the multiples of the spacing that lie above. -/
theorem RoundsTo.le_of_le_multiple {n e : ℤ} (h : RoundsTo format x r) (hx : x ≤ n * 2 ^ e)
    (he : spacing format x ≤ e) : r ≤ n * 2 ^ e := by
  obtain ⟨m, rfl, hm⟩ := h
  have hpos : (0 : ℚ) < 2 ^ spacing format x := by positivity
  obtain ⟨k, hk⟩ := Int.le.dest he
  have hmultiple : (n : ℚ) * 2 ^ e = (n * 2 ^ k : ℤ) * 2 ^ spacing format x := by
    rw [← hk, add_comm, zpow_add₀ two_ne_zero, zpow_natCast, ← mul_assoc]
    push_cast
    rfl
  rw [hmultiple] at hx ⊢
  have hle := hm.mono (.intCast _) ((div_le_iff₀ hpos).mpr hx)
  exact mul_le_mul_of_nonneg_right (by exact_mod_cast hle) hpos.le

theorem RoundsTo.ge_of_multiple_le {n e : ℤ} (h : RoundsTo format x r) (hx : n * 2 ^ e ≤ x)
    (he : spacing format x ≤ e) : n * 2 ^ e ≤ r := by
  have hneg := h.neg.le_of_le_multiple (n := -n) (e := e) (by push_cast; linarith)
    (by rwa [spacing, abs_neg])
  push_cast at hneg
  linarith

/-- The numbers of a format stay as they are. -/
theorem RoundsTo.eq_self {n e : ℤ} (h : RoundsTo format x r) (hx : x = n * 2 ^ e)
    (he : spacing format x ≤ e) : r = x := by
  rw [hx]
  exact le_antisymm (h.le_of_le_multiple hx.le he) (h.ge_of_multiple_le hx.ge he)

theorem RoundsTo.nonneg (h : RoundsTo format x r) (hx : 0 ≤ x) : 0 ≤ r := by
  simpa using h.ge_of_multiple_le (n := 0) (by simpa using hx) le_rfl

theorem RoundsTo.nonpos (h : RoundsTo format x r) (hx : x ≤ 0) : r ≤ 0 := by
  simpa using h.le_of_le_multiple (n := 0) (by simpa using hx) le_rfl

/-- Where the spacing grows between two rationals, a power of two parts them. -/
theorem RoundsTo.mono_of_pos (hdigits : 0 < format.digits) (hx : RoundsTo format x r)
    (hy : RoundsTo format y s) (hpos : 0 < x) (hle : x ≤ y) : r ≤ s := by
  have hlog : Int.log 2 x ≤ Int.log 2 y := Int.log_mono_right hpos hle
  have hsx : spacing format x = max (Int.log 2 x - format.digits + 1) format.leastExponent := by
    rw [spacing, abs_of_pos hpos]
  have hsy : spacing format y = max (Int.log 2 y - format.digits + 1) format.leastExponent := by
    rw [spacing, abs_of_pos (hpos.trans_le hle)]
  by_cases hsame : spacing format x = spacing format y
  · obtain ⟨m, rfl, hm⟩ := hx
    obtain ⟨n, rfl, hn⟩ := hy
    rw [hsame] at hm ⊢
    have hspace : (0 : ℚ) < 2 ^ spacing format y := by positivity
    have hmn := hm.mono hn (div_le_div_of_nonneg_right hle hspace.le)
    exact mul_le_mul_of_nonneg_right (by exact_mod_cast hmn) hspace.le
  · have hupper : x < 2 ^ Int.log 2 y := by
      have := (Int.lt_zpow_iff_log_lt (b := 2) one_lt_two hpos (x := Int.log 2 y)).mpr (by omega)
      exact_mod_cast this
    have hlower : (2 : ℚ) ^ Int.log 2 y ≤ y := by
      exact_mod_cast Int.zpow_log_le_self (b := 2) one_lt_two (hpos.trans_le hle)
    have hr : r ≤ (1 : ℤ) * 2 ^ Int.log 2 y :=
      hx.le_of_le_multiple (by simpa using hupper.le) (by omega)
    have hs : (1 : ℤ) * 2 ^ Int.log 2 y ≤ s :=
      hy.ge_of_multiple_le (by simpa using hlower) (by omega)
    exact hr.trans hs

/-- Rounding never turns two rationals round. -/
theorem RoundsTo.mono (hdigits : 0 < format.digits) (hx : RoundsTo format x r)
    (hy : RoundsTo format y s) (hle : x ≤ y) : r ≤ s := by
  rcases lt_or_ge 0 x with hpos | hx0
  · exact hx.mono_of_pos hdigits hy hpos hle
  · rcases lt_or_ge y 0 with hneg | hy0
    · exact neg_le_neg_iff.mp
        (hy.neg.mono_of_pos hdigits hx.neg (neg_pos.mpr hneg) (neg_le_neg hle))
    · exact (hx.nonpos hx0).trans (hy.nonneg hy0)

theorem RoundsTo.unique (hdigits : 0 < format.digits) (h : RoundsTo format x r)
    (h' : RoundsTo format x s) : r = s :=
  le_antisymm (h.mono hdigits h' le_rfl) (h'.mono hdigits h le_rfl)

theorem natAbs_num_div_den (x : ℚ) : (x.num.natAbs : ℚ) / x.den = |x| := by
  nth_rewrite 3 [← Rat.num_div_den x]
  rw [abs_div, Nat.abs_cast, Nat.cast_natAbs, Int.cast_abs]

theorem roundsTo_abs (format : BinaryFormat) (x : ℚ) :
    RoundsTo format |x| (roundMagnitude format x.num.natAbs x.den) := by
  rw [← natAbs_num_div_den]
  exact roundsTo_roundMagnitude x.den_pos

theorem exists_roundsTo (format : BinaryFormat) (x : ℚ) : ∃ r, RoundsTo format x r := by
  have hround := roundsTo_abs format x
  rcases abs_choice x with h | h
  · exact ⟨_, h ▸ hround⟩
  · rw [h] at hround
    exact ⟨_, neg_neg x ▸ hround.neg⟩

theorem spacing_le {k : ℤ} (hx : x ≠ 0) (hlt : |x| < 2 ^ k)
    (hk : format.leastExponent ≤ k - format.digits) : spacing format x ≤ k - format.digits := by
  have hlog : Int.log 2 |x| < k := by
    rw [← Int.lt_zpow_iff_log_lt one_lt_two (abs_pos.mpr hx)]
    exact_mod_cast hlt
  rw [spacing]
  omega

theorem RoundsTo.zero (h : RoundsTo format 0 r) : r = 0 :=
  le_antisymm (h.nonpos le_rfl) (h.nonneg le_rfl)

/-- Powers of two stay as they are. -/
theorem RoundsTo.eq_of_abs_eq {k : ℤ} (hdigits : 0 < format.digits) (h : RoundsTo format x r)
    (hx : |x| = 2 ^ k) (hk : format.leastExponent ≤ k) : r = x := by
  have hspacing : spacing format x ≤ k := by
    have hlog : Int.log 2 ((2 : ℚ) ^ k) = k := by
      exact_mod_cast Int.log_zpow (R := ℚ) one_lt_two k
    rw [spacing, hx, hlog]
    omega
  rcases eq_or_eq_neg_of_abs_eq hx with hx | hx
  · exact h.eq_self (n := 1) (by rw [hx, Int.cast_one, one_mul]) hspacing
  · exact h.eq_self (n := -1) (by rw [hx, Int.cast_neg, Int.cast_one, neg_one_mul]) hspacing

/-- So do multiples of them with no more digits than the format has. -/
theorem RoundsTo.eq_of_multiple {n e : ℤ} (hdigits : 0 < format.digits) (h : RoundsTo format x r)
    (hx : x = n * 2 ^ e) (hn : |n| ≤ 2 ^ format.digits) (he : format.leastExponent ≤ e) :
    r = x := by
  have habs : |x| = (|n| : ℤ) * 2 ^ e := by
    rw [hx, abs_mul, Int.cast_abs, abs_of_pos (by positivity : (0 : ℚ) < 2 ^ e)]
  have hlimit : (2 : ℚ) ^ (format.digits + e) = (2 ^ format.digits : ℤ) * 2 ^ e := by
    rw [zpow_add₀ two_ne_zero, zpow_natCast]
    push_cast
    rfl
  rcases hn.lt_or_eq with hlt | heq
  · by_cases hzero : x = 0
    · rw [hzero] at h ⊢
      exact h.zero
    · have hless : |x| < 2 ^ (format.digits + e) := by
        rw [habs, hlimit]
        exact mul_lt_mul_of_pos_right (by exact_mod_cast hlt) (by positivity)
      have hspacing : spacing format x ≤ format.digits + e - format.digits :=
        spacing_le hzero hless (by omega)
      exact h.eq_self hx (by omega)
  · exact h.eq_of_abs_eq hdigits (by rw [habs, heq, hlimit]) (by omega)

/-- Rounding does not cross a number of the format. -/
theorem RoundsTo.multiple_le {n e : ℤ} (hdigits : 0 < format.digits) (h : RoundsTo format x r)
    (hx : n * 2 ^ e ≤ x) (hn : |n| ≤ 2 ^ format.digits) (he : format.leastExponent ≤ e) :
    n * 2 ^ e ≤ r := by
  obtain ⟨s, hs⟩ := exists_roundsTo format (n * 2 ^ e)
  rw [← hs.eq_of_multiple hdigits rfl hn he]
  exact hs.mono hdigits h hx

/-- The error below a power of two. -/
theorem RoundsTo.abs_sub_le_of_le {k : ℤ} (hdigits : 0 < format.digits) (h : RoundsTo format x r)
    (hx : |x| ≤ 2 ^ k) (hk : format.leastExponent ≤ k - format.digits) :
    |r - x| ≤ 2 ^ (k - format.digits) / 2 := by
  have hnonneg : (0 : ℚ) ≤ 2 ^ (k - format.digits) / 2 := by positivity
  by_cases hzero : x = 0
  · rw [hzero] at h ⊢
    rw [h.zero, sub_zero, abs_zero]
    exact hnonneg
  · rcases hx.lt_or_eq with hlt | heq
    · refine h.abs_sub_le.trans ?_
      have hspacing := spacing_le hzero hlt hk
      gcongr
      exact one_le_two
    · rw [h.eq_of_abs_eq hdigits heq (by omega), sub_self, abs_zero]
      exact hnonneg

/-- An answer stands for what rounding gives. -/
theorem toRat?_of_nearest? {v : Binary64} (h : nearest? format x = some v) :
    ∃ r, v.toRat? = some r ∧ RoundsTo format x r := by
  have hround := roundsTo_abs format x
  unfold nearest? at h
  dsimp only at h
  split_ifs at h with hlimit hneg hzero
  · cases h
    have hx : x < 0 := Rat.num_neg.mp hneg
    rw [hzero, abs_of_neg hx] at hround
    exact ⟨0, rfl, by simpa using hround.neg⟩
  · cases h
    have hx : x < 0 := Rat.num_neg.mp hneg
    rw [abs_of_neg hx] at hround
    exact ⟨_, rfl, by simpa using hround.neg⟩
  · cases h
    have hx : 0 ≤ x := Rat.num_nonneg.mp (not_lt.mp hneg)
    rw [abs_of_nonneg hx] at hround
    exact ⟨_, rfl, hround⟩

/-- Rationals up to a power of two below the limit have an answer. -/
theorem exists_nearest? {k : ℤ} (hdigits : 0 < format.digits) (hx : |x| ≤ 2 ^ k)
    (hleast : format.leastExponent ≤ k) (hlimit : k < format.limitExponent) :
    ∃ v, nearest? format x = some v := by
  have hsize : roundMagnitude format x.num.natAbs x.den ≤ 2 ^ k := by
    obtain ⟨s, hs⟩ := exists_roundsTo format (2 ^ k)
    have hpower : s = 2 ^ k := hs.eq_of_abs_eq hdigits (abs_of_pos (by positivity)) hleast
    exact hpower ▸ (roundsTo_abs format x).mono hdigits hs hx
  have hfits : ¬ scale 1 format.limitExponent ≤ roundMagnitude format x.num.natAbs x.den := by
    rw [not_le, scale_eq, Nat.cast_one, one_mul]
    exact hsize.trans_lt (zpow_lt_zpow_right₀ one_lt_two hlimit)
  unfold nearest?
  dsimp only
  rw [if_neg hfits]
  split_ifs <;> exact ⟨_, rfl⟩

/-- Doubles have whole numbers of 53 digits among them. -/
theorem RoundsTo.intCast_le {n : ℤ} (h : RoundsTo .double x r) (hx : n ≤ x)
    (hn : |n| ≤ 2 ^ 53) : n ≤ r := by
  have hle := h.multiple_le (n := n) (e := 0) (by decide) (by simpa using hx) hn (by decide)
  simpa using hle

theorem RoundsTo.le_intCast {n : ℤ} (h : RoundsTo .double x r) (hx : x ≤ n)
    (hn : |n| ≤ 2 ^ 53) : r ≤ n := by
  have hle := h.neg.intCast_le (n := -n) (by push_cast; linarith) (by rwa [abs_neg])
  push_cast at hle
  linarith

theorem RoundsTo.eq_intCast {n : ℤ} (h : RoundsTo .double n r) (hn : |n| ≤ 2 ^ 53) : r = n :=
  le_antisymm (h.le_intCast le_rfl hn) (h.intCast_le le_rfl hn)

theorem exists_ofRat {k : ℤ} (hx : |x| ≤ 2 ^ k) (hk : 0 ≤ k) (hlimit : k < 1024) :
    ∃ r, (ofRat x).toRat? = some r ∧ RoundsTo .double x r := by
  have hleast : BinaryFormat.double.leastExponent ≤ 0 := by decide
  obtain ⟨v, hv⟩ : ∃ v, ofRat? x = some v :=
    exists_nearest? (by decide) hx (hleast.trans hk) hlimit
  rw [ofRat, hv, Option.getD_some]
  exact toRat?_of_nearest? hv

theorem place?_of_toRat? {v : Binary64} (h : v.toRat? = some r) : v.place? = some (0, r) := by
  cases v <;> cases h <;> rfl

/-! The range of a format. -/

/-- Halfway between the greatest number of a format and the power of two that is too large. -/
def bound (format : BinaryFormat) : ℚ :=
  2 ^ format.limitExponent - 2 ^ (format.limitExponent - format.digits) / 2

theorem nearest?_eq_none_iff :
    nearest? format x = none ↔
      2 ^ format.limitExponent ≤ roundMagnitude format x.num.natAbs x.den := by
  unfold nearest?
  dsimp only
  rw [scale_eq, Nat.cast_one, one_mul]
  split_ifs with hlimit <;> simp [hlimit]

/-- The bound is a tie, which goes to the power of two. -/
theorem roundsTo_bound (hdigits : 0 < format.digits)
    (hleast : format.leastExponent ≤ format.limitExponent - format.digits) :
    RoundsTo format (bound format) (2 ^ format.limitExponent) := by
  have hunit : (0 : ℚ) < 2 ^ (format.limitExponent - format.digits) := by positivity
  have hlimit : (2 : ℚ) ^ format.limitExponent =
      2 ^ format.digits * 2 ^ (format.limitExponent - format.digits) := by
    rw [← zpow_natCast, ← zpow_add₀ two_ne_zero]
    congr 1
    omega
  have hpower : (2 : ℚ) ≤ 2 ^ format.digits := le_self_pow₀ one_le_two hdigits.ne'
  have hbound : bound format =
      (2 ^ format.digits - 1 / 2) * 2 ^ (format.limitExponent - format.digits) := by
    rw [bound, hlimit]
    ring
  have hpos : 0 < bound format := hbound ▸ mul_pos (by linarith) hunit
  have hspacing : spacing format (bound format) = format.limitExponent - format.digits := by
    have hlog : Int.log 2 (bound format) = format.limitExponent - 1 := by
      apply le_antisymm
      · rw [Int.le_sub_one_iff, ← Int.lt_zpow_iff_log_lt one_lt_two hpos]
        push_cast
        rw [bound]
        linarith
      · rw [← Int.zpow_le_iff_le_log one_lt_two hpos]
        push_cast
        rw [zpow_sub_one₀ two_ne_zero, bound]
        have hless : (2 : ℚ) ^ (format.limitExponent - format.digits) ≤ 2 ^ format.limitExponent := by
          rw [hlimit]
          nlinarith
        linarith
    rw [spacing, abs_of_pos hpos, hlog]
    omega
  refine ⟨2 ^ format.digits, ?_, ?_⟩
  · rw [hspacing, hlimit]
    push_cast
    rfl
  · have hratio : bound format / 2 ^ spacing format (bound format) = 2 ^ format.digits - 1 / 2 := by
      rw [hspacing, hbound, mul_div_cancel_right₀ _ hunit.ne']
    have htie : |bound format / 2 ^ spacing format (bound format) - (2 ^ format.digits : ℤ)| =
        1 / 2 := by
      rw [hratio]
      push_cast
      rw [sub_sub_cancel_left, abs_neg, abs_of_pos one_half_pos]
    exact ⟨htie.le, fun _ => (even_two.pow_of_ne_zero hdigits.ne')⟩

/-- The rationals that have an answer. -/
theorem exists_nearest?_iff (hdigits : 0 < format.digits)
    (hleast : format.leastExponent ≤ format.limitExponent - format.digits) :
    (∃ v, nearest? format x = some v) ↔ |x| < bound format := by
  rw [← Option.ne_none_iff_exists', Ne, nearest?_eq_none_iff, not_le]
  have hround := roundsTo_abs format x
  constructor
  · intro h
    by_contra hbound
    exact absurd ((roundsTo_bound hdigits hleast).mono hdigits hround (not_lt.mp hbound)) h.not_ge
  · intro h
    have hbelow : |(|x|)| ≤ 2 ^ format.limitExponent := by
      rw [abs_abs]
      exact h.le.trans (sub_le_self _ (by positivity))
    have herror := (abs_le.mp (hround.abs_sub_le_of_le hdigits hbelow hleast)).2
    rw [bound] at h
    linarith

theorem exists_ofInt?_iff {n : ℤ} : (∃ x, ofInt? n = some x) ↔ |n| < 2 ^ 1024 - 2 ^ 970 := by
  have hcast : mkRat n 1 = n := Rat.mkRat_one n
  have hbound : bound .double = ((2 ^ 1024 - 2 ^ 970 : ℤ) : ℚ) := by
    have hunit : (2 : ℚ) ^ (971 : ℤ) / 2 = 2 ^ 970 := by
      rw [show (971 : ℤ) = (970 : ℕ) + 1 by rfl, zpow_add_one₀ two_ne_zero, zpow_natCast,
        mul_div_cancel_right₀ _ two_ne_zero]
    change (2 : ℚ) ^ (1024 : ℤ) - 2 ^ (971 : ℤ) / 2 = _
    rw [hunit, show (1024 : ℤ) = (1024 : ℕ) by rfl, zpow_natCast, Int.cast_sub, Int.cast_pow,
      Int.cast_pow, Int.cast_ofNat]
  rw [ofInt?, ofRat?, exists_nearest?_iff (by decide) (by decide), hcast, hbound, ← Int.cast_abs,
    Int.cast_lt]

end Binary64
end OrderedRelations
