import OrderedRelations.Proofs.Calendar.Order

/-!
# Dates from day counts

Counting the days of a date and looking for the date of that count leads back to the date.
-/

namespace OrderedRelations

namespace Calendar

/-- A day of a year, counted from zero, is found again among all days. -/
theorem yearAndDay_eq {year rest : ℕ} (hyear : 1 ≤ year)
    (hrest : rest < 337 + daysInMonth year 2) :
    yearAndDay (daysBeforeYear year + rest) = (year, rest) := by
  have hfebruary : daysInMonth year 2 =
      if year % 4 = 0 ∧ (year % 100 ≠ 0 ∨ year % 400 = 0) then 29 else 28 := by
    simp [daysInMonth, isLeap]
  -- the years before in whole periods of 400, 100 and 4 years
  obtain ⟨y, rfl⟩ := Nat.exists_eq_add_of_le' hyear
  obtain ⟨a, b, c, e, hy, hb, hc, he⟩ : ∃ a b c e, y = 400 * a + 100 * b + 4 * c + e ∧
      b < 4 ∧ c < 25 ∧ e < 4 :=
    ⟨y / 400, y % 400 / 100, y % 100 / 4, y % 4, by omega, by omega, by omega, by omega⟩
  have hbefore : daysBeforeYear (y + 1) = 146097 * a + 36524 * b + 1461 * c + 365 * e := by
    simp only [daysBeforeYear]
    omega
  have hlength : rest < 365 ∨ rest = 365 ∧ e = 3 ∧ (c ≠ 24 ∨ b = 3) := by
    rw [hfebruary] at hrest
    split_ifs at hrest <;> omega
  have hperiod : (daysBeforeYear (y + 1) + rest) % 146097 = 36524 * b + 1461 * c + 365 * e + rest ∧
      (daysBeforeYear (y + 1) + rest) / 146097 = a := by
    omega
  have hcenturies : min ((36524 * b + 1461 * c + 365 * e + rest) / 36524) 3 = b := by
    omega
  have hinCentury :
      36524 * b + 1461 * c + 365 * e + rest - 36524 * b = 1461 * c + 365 * e + rest := by
    omega
  have hinCycle : (1461 * c + 365 * e + rest) % 1461 = 365 * e + rest := by
    omega
  have hyears : min ((365 * e + rest) / 365) 3 = e := by
    rcases hlength with hlt | ⟨rfl, rfl, -⟩ <;> omega
  simp only [yearAndDay, hperiod.1, hperiod.2, hcenturies, hinCentury, hinCycle, hyears,
    Prod.mk.injEq]
  omega

/-- The month of a day of a year is found by walking through the months. -/
theorem monthAndDay_eq (left : ℕ) {year first month day : ℕ} (hfirst : 1 ≤ first)
    (hle : first ≤ month) (hleft : month < first + left) (hday : day < daysInMonth year month) :
    monthAndDay year left first (daysBeforeMonth year month - daysBeforeMonth year first + day) =
      (month, day + 1) := by
  induction left generalizing first with
  | zero => omega
  | succ left ih =>
    have hsucc := daysBeforeMonth_succ year hfirst
    rw [monthAndDay]
    rcases Nat.eq_or_lt_of_le hle with rfl | hlt
    · rw [Nat.sub_self, Nat.zero_add, if_pos hday]
    · have hmono := daysBeforeMonth_le year (Nat.le_add_left 1 first) hlt
      rw [if_neg (by omega)]
      have hstep := ih (Nat.le_add_left 1 first) hlt (by omega)
      rw [← hstep]
      congr 1
      omega

end Calendar

namespace Date

open Calendar

/-- The date of the day count of a date is that date. -/
theorem ofOrdinal?_ordinal (d : Date) : ofOrdinal? d.ordinal = some d := by
  obtain ⟨hyear, hmonth, hmonth', hday, hday'⟩ := d.bounds
  have hend := daysBeforeMonth_succ d.year hmonth
  have hmonths : daysBeforeMonth d.year (d.month + 1) ≤ daysBeforeMonth d.year 13 :=
    daysBeforeMonth_le d.year (Nat.le_add_left 1 d.month) (Nat.add_le_add_right hmonth' 1)
  rw [daysBeforeMonth_thirteen] at hmonths
  have hcount : ((d.ordinal : ℤ) - 1).toNat =
      daysBeforeYear d.year + (daysBeforeMonth d.year d.month + (d.day - 1)) := by
    simp only [ordinal]
    omega
  have hpositive : ¬ (d.ordinal : ℤ) < 1 := by
    simp only [ordinal]
    omega
  have hinYear : daysBeforeMonth d.year d.month + (d.day - 1) < 337 + daysInMonth d.year 2 := by
    omega
  have hwalk := monthAndDay_eq 12 (le_refl 1) hmonth (by omega)
    (show d.day - 1 < daysInMonth d.year d.month by omega)
  rw [show daysBeforeMonth d.year 1 = 0 from rfl, Nat.sub_zero, Nat.sub_add_cancel hday] at hwalk
  have hfields : ofFields? d.year d.month d.day = some d := dif_pos d.valid
  simp only [ofOrdinal?, if_neg hpositive, hcount, yearAndDay_eq hyear hinYear, hwalk, hfields]

end Date
end OrderedRelations
