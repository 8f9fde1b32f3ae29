import OrderedRelations.Proofs.Number.Rounding

/-!
# Numbers of a binary format

A format holds the multiples of powers of two that have no more digits than it, below its limit.
Rounding gives these numbers only, and keeps them as they are.
-/

namespace OrderedRelations

/-- The finite numbers of a format. -/
structure BinaryFormat.Holds (format : BinaryFormat) (q : ℚ) : Prop where
  multiple : ∃ n e : ℤ, q = n * 2 ^ e ∧ |n| ≤ 2 ^ format.digits ∧ format.leastExponent ≤ e
  bounded : |q| < 2 ^ format.limitExponent

namespace Binary64

variable {format : BinaryFormat} {x q : ℚ}

/-- The numbers near a rational have no more units than the digits of the format can count. -/
theorem abs_units_le {n : ℤ} (h : IsNearest (x / 2 ^ spacing format x) n) :
    |n| ≤ 2 ^ format.digits := by
  have hspace : (0 : ℚ) < 2 ^ spacing format x := by positivity
  have hscaled : |x / 2 ^ spacing format x| ≤ ((2 ^ format.digits : ℤ) : ℚ) := by
    rw [abs_div, abs_of_pos hspace, div_le_iff₀ hspace]
    push_cast
    rw [← zpow_natCast, ← zpow_add₀ two_ne_zero]
    by_cases hzero : x = 0
    · rw [hzero, abs_zero]
      positivity
    · have hlt : |x| < 2 ^ (Int.log 2 |x| + 1) := by
        exact_mod_cast Int.lt_zpow_succ_log_self (b := 2) one_lt_two |x|
      refine hlt.le.trans (zpow_le_zpow_right₀ one_le_two ?_)
      rw [spacing]
      omega
  obtain ⟨hlow, hhigh⟩ := abs_le.mp hscaled
  rw [abs_le]
  constructor
  · exact (IsNearest.intCast (-2 ^ format.digits)).mono h (by push_cast at hlow ⊢; exact hlow)
  · exact h.mono (.intCast _) hhigh

/-- What rounding gives is a number of the format. -/
theorem holds_of_nearest? (h : nearest? format x = some (number q)) : format.Holds q := by
  obtain ⟨r, hr, n, hn, hnearest⟩ := toRat?_of_nearest? h
  obtain rfl : q = r := Option.some.inj hr
  refine ⟨⟨n, spacing format x, hn, abs_units_le hnearest, le_max_right _ _⟩, ?_⟩
  have hnonneg := (roundsTo_abs format x).nonneg (abs_nonneg x)
  unfold nearest? at h
  dsimp only at h
  split_ifs at h with hlimit hneg hzero
  all_goals
    rw [scale_eq, Nat.cast_one, one_mul, not_le] at hlimit
    cases h
  · rwa [abs_neg, abs_of_nonneg hnonneg]
  · rwa [abs_of_nonneg hnonneg]

/-- A number of the format stays as it is. -/
theorem nearest?_eq_self (hdigits : 0 < format.digits) (h : format.Holds q) :
    nearest? format q = some (number q) := by
  obtain ⟨⟨n, e, hq, hn, he⟩, hbounded⟩ := h
  have hsize : roundMagnitude format q.num.natAbs q.den = |q| := by
    refine (roundsTo_abs format q).eq_of_multiple hdigits (n := |n|) (e := e) ?_ (by rwa [abs_abs]) he
    rw [hq, abs_mul, Int.cast_abs, abs_of_pos (by positivity : (0 : ℚ) < 2 ^ e)]
  have hlimit : ¬ scale 1 format.limitExponent ≤ |q| := by
    rwa [scale_eq, Nat.cast_one, one_mul, not_le]
  unfold nearest?
  dsimp only
  rw [hsize, if_neg hlimit]
  split_ifs with hneg hzero
  · rw [abs_eq_zero] at hzero
    simp [hzero] at hneg
  · rw [abs_of_neg (Rat.num_neg.mp hneg), neg_neg]
  · rw [abs_of_nonneg (Rat.num_nonneg.mp (not_lt.mp hneg))]

/-- The numbers that a machine has: a finite one is a number of the format. -/
def IsDouble : Binary64 → Prop
  | number q => BinaryFormat.double.Holds q
  | _ => True

theorem isDouble_zero : zero.IsDouble :=
  ⟨⟨0, 0, by simp, by simp, by decide⟩, by rw [abs_zero]; positivity⟩

theorem IsDouble.neg {x : Binary64} (h : x.IsDouble) : x.neg.IsDouble := by
  cases x with
  | number q =>
    obtain ⟨⟨n, e, hq, hn, he⟩, hbounded⟩ := h
    rw [Binary64.neg]
    split_ifs
    · trivial
    · refine ⟨⟨-n, e, ?_, by rwa [abs_neg], he⟩, by rwa [abs_neg]⟩
      rw [hq, Int.cast_neg, neg_mul]
  | negativeZero => exact isDouble_zero
  | _ => trivial

theorem isDouble_ofRat (x : ℚ) : (ofRat x).IsDouble := by
  unfold ofRat
  cases h : ofRat? x with
  | none => trivial
  | some v =>
    cases v with
    | number q => exact holds_of_nearest? h
    | _ => trivial

theorem ofRat_eq_self (h : (number q).IsDouble) : ofRat q = number q := by
  have hself : ofRat? q = some (number q) := nearest?_eq_self (by decide) h
  rw [ofRat, hself, Option.getD_some]

theorem toRat?_neg {x : Binary64} {p : ℚ} (hx : x.toRat? = some p) : x.neg.toRat? = some (-p) := by
  cases x with
  | number q =>
    cases hx
    rw [neg]
    split_ifs with hzero
    · simp [toRat?, hzero]
    · rfl
  | negativeZero =>
    cases hx
    simp [neg, toRat?, zero]
  | _ => cases hx

/-- Whole numbers of 53 digits are doubles. -/
theorem exists_ofInt {n : ℤ} (hn : |n| ≤ 2 ^ 53) :
    ∃ x, ofInt? n = some x ∧ x.toRat? = some (n : ℚ) ∧ x.IsDouble := by
  have hcast : mkRat n 1 = (n : ℚ) := by rw [Rat.mkRat_eq_div, Nat.cast_one, div_one]
  have hsize : |(n : ℚ)| ≤ 2 ^ (53 : ℤ) := by exact_mod_cast hn
  obtain ⟨x, hx⟩ : ∃ x, ofInt? n = some x := by
    rw [ofInt?, hcast]
    exact exists_nearest? (by decide) hsize (by decide) (by decide)
  have hround := hx
  rw [ofInt?, hcast] at hround
  obtain ⟨r, hr, hr'⟩ := toRat?_of_nearest? hround
  refine ⟨x, hx, hr.trans (by rw [hr'.eq_intCast hn]), ?_⟩
  have hself : ofRat (n : ℚ) = x := by rw [ofRat, hround, Option.getD_some]
  exact hself ▸ isDouble_ofRat _

/-- The sum of two finite doubles is the double nearest to their exact sum. -/
theorem exists_add {x y : Binary64} {p q : ℚ} (hx : x.toRat? = some p) (hy : y.toRat? = some q)
    (hdx : x.IsDouble) (hdy : y.IsDouble) {k : ℤ} (hsize : |p + q| ≤ 2 ^ k) (hk : 0 ≤ k)
    (hlimit : k < 1024) : ∃ r, (x.add y).toRat? = some r ∧ RoundsTo .double (p + q) r := by
  have hsum : ∃ r, (ofRat (p + q)).toRat? = some r ∧ RoundsTo .double (p + q) r :=
    exists_ofRat hsize hk hlimit
  cases x with
  | number p =>
    cases hx
    cases y with
    | number q =>
      cases hy
      exact hsum
    | negativeZero =>
      cases hy
      rw [add_zero, ofRat_eq_self hdx] at hsum
      rwa [add_zero]
    | _ => cases hy
  | negativeZero =>
    cases hx
    cases y with
    | number q =>
      cases hy
      rw [zero_add, ofRat_eq_self hdy] at hsum
      rwa [zero_add]
    | negativeZero =>
      cases hy
      obtain ⟨r, hr⟩ := exists_roundsTo .double 0
      refine ⟨0, rfl, ?_⟩
      rw [add_zero]
      rwa [hr.zero] at hr
    | _ => cases hy
  | _ => cases hx

/-- Adding zero, or taking it away, keeps the place of a number. -/
theorem place?_add_zero {v : Binary64} (h : v.IsDouble) : (v.add zero).place? = v.place? := by
  cases v with
  | number q =>
    have hadd : (number q).add zero = ofRat (q + 0) := rfl
    rw [hadd, add_zero, ofRat_eq_self h]
  | _ => rfl

theorem place?_sub_zero (v : Binary64) : (v.sub zero).place? = v.place? := by
  cases v <;> rfl

end Binary64
end OrderedRelations
