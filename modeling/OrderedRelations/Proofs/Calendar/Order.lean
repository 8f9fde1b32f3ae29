import Mathlib.Order.Nat
import Mathlib.Tactic.SplitIfs
import OrderedRelations.Calendar.DateTime

/-!
# The calendar as a number line

Day counts order dates as year, month and day do, and readings order moments as date and clock
do: the first of each month and of each year comes after all days before it.
-/

namespace OrderedRelations

namespace Calendar

theorem daysBeforeMonth_succ (year : ℕ) {month : ℕ} (h : 1 ≤ month) :
    daysBeforeMonth year (month + 1) = daysBeforeMonth year month + daysInMonth year month := by
  obtain ⟨m, rfl⟩ := Nat.exists_eq_add_of_le' h
  rfl

theorem daysBeforeMonth_le (year : ℕ) {month later : ℕ} (h : 1 ≤ month) (hlater : month ≤ later) :
    daysBeforeMonth year month ≤ daysBeforeMonth year later := by
  induction later, hlater using Nat.le_induction with
  | base => exact Nat.le_refl _
  | succ m hm ih =>
    rw [daysBeforeMonth_succ year (h.trans hm)]
    omega

theorem daysBeforeMonth_thirteen (year : ℕ) :
    daysBeforeMonth year 13 = 337 + daysInMonth year 2 := by
  have hjanuary : daysBeforeMonth year 2 = 31 := rfl
  have hmarch : daysBeforeMonth year 3 = 31 + daysInMonth year 2 := by
    rw [daysBeforeMonth_succ year (by decide), hjanuary]
  have hrest : daysBeforeMonth year 13 = daysBeforeMonth year 3 + 31 + 30 + 31 + 30 + 31 + 31 + 30 +
      31 + 30 + 31 := rfl
  omega

theorem div_pred {year k : ℕ} (h : 1 ≤ year) :
    year / k = (year - 1) / k + if year % k = 0 then 1 else 0 := by
  obtain ⟨y, rfl⟩ := Nat.exists_eq_add_of_le' h
  rw [Nat.succ_div, Nat.add_sub_cancel]
  simp only [Nat.dvd_iff_mod_eq_zero]

/-- A year of twelve months ends where the next year begins. -/
theorem daysBeforeYear_succ {year : ℕ} (h : 1 ≤ year) :
    daysBeforeYear (year + 1) = daysBeforeYear year + daysBeforeMonth year 13 := by
  have hfebruary : daysInMonth year 2 =
      if year % 4 = 0 ∧ (year % 100 ≠ 0 ∨ year % 400 = 0) then 29 else 28 := by
    simp [daysInMonth, isLeap]
  have hcentury : year % 100 = 0 → year % 4 = 0 := by omega
  have hfour : year % 400 = 0 → year % 100 = 0 := by omega
  have hle : (year - 1) / 100 ≤ (year - 1) / 4 := Nat.div_le_div_left (by decide) (by decide)
  have hdays : 365 * year = 365 * (year - 1) + 365 := by omega
  rw [daysBeforeMonth_thirteen, hfebruary]
  simp only [daysBeforeYear, Nat.add_sub_cancel, div_pred h, hdays]
  generalize (year - 1) / 4 = a at *
  generalize (year - 1) / 100 = b at *
  generalize (year - 1) / 400 = c at *
  split_ifs <;> omega

theorem daysBeforeYear_le {year later : ℕ} (h : 1 ≤ year) (hlater : year ≤ later) :
    daysBeforeYear year ≤ daysBeforeYear later := by
  induction later, hlater using Nat.le_induction with
  | base => exact Nat.le_refl _
  | succ y hy ih =>
    rw [daysBeforeYear_succ (h.trans hy)]
    omega

end Calendar

namespace Date

open Calendar

theorem bounds (d : Date) : 1 ≤ d.year ∧ 1 ≤ d.month ∧ d.month ≤ 12 ∧ 1 ≤ d.day ∧
    d.day ≤ daysInMonth d.year d.month := by
  have h := d.valid
  simp only [isDate, Bool.and_eq_true, decide_eq_true_eq] at h
  obtain ⟨⟨⟨⟨⟨hyear, -⟩, hmonth⟩, hmonth'⟩, hday⟩, hday'⟩ := h
  exact ⟨hyear, hmonth, hmonth', hday, hday'⟩

theorem year_le (d : Date) : d.year ≤ 9999 := by
  have h := d.valid
  simp only [isDate, Bool.and_eq_true, decide_eq_true_eq] at h
  exact h.1.1.1.1.2

theorem ordinal_lt_of_less {a b : Date} (h : a.less b = true) : a.ordinal < b.ordinal := by
  obtain ⟨ha, ham, ham', -, had⟩ := a.bounds
  obtain ⟨-, hbm, -, hbd, -⟩ := b.bounds
  have hend := daysBeforeMonth_succ a.year ham
  simp only [less, Bool.or_eq_true, Bool.and_eq_true, decide_eq_true_eq] at h
  rcases h with hyear | ⟨hyear, hmonth | ⟨hmonth, hday⟩⟩
  · have hsucc := daysBeforeYear_succ ha
    have hyears := daysBeforeYear_le (Nat.le_add_left 1 a.year) hyear
    have hmonths : daysBeforeMonth a.year (a.month + 1) ≤ daysBeforeMonth a.year 13 :=
      daysBeforeMonth_le a.year (Nat.le_add_left 1 a.month) (Nat.add_le_add_right ham' 1)
    simp only [ordinal]
    omega
  · have hmonths := daysBeforeMonth_le a.year (Nat.le_add_left 1 a.month) hmonth
    simp only [ordinal, ← hyear]
    omega
  · simp only [ordinal, ← hyear, ← hmonth]
    omega

theorem less_trichotomy (a b : Date) : a.less b = true ∨ a = b ∨ b.less a = true := by
  obtain ⟨y, m, d, ha⟩ := a
  obtain ⟨y', m', d', hb⟩ := b
  simp only [less, Bool.or_eq_true, Bool.and_eq_true, decide_eq_true_eq, mk.injEq]
  omega

theorem less_iff {a b : Date} : a.less b = true ↔ a.ordinal < b.ordinal := by
  refine ⟨ordinal_lt_of_less, fun h => ?_⟩
  rcases less_trichotomy a b with hlt | rfl | hgt
  · exact hlt
  · omega
  · have hgt := ordinal_lt_of_less hgt
    omega

/-- Day counts run from 1 to the last day of the year 9999. -/
theorem ordinal_mem (d : Date) : 1 ≤ d.ordinal ∧ d.ordinal ≤ 3652059 := by
  obtain ⟨-, -, hmonth, hday, hday'⟩ := d.bounds
  refine ⟨by rw [ordinal]; omega, not_lt.mp fun hlt => ?_⟩
  have hlast : (⟨9999, 12, 31, by decide⟩ : Date).ordinal = 3652059 := by decide
  have hless := less_iff.mpr (hlast ▸ hlt)
  have hyear := d.year_le
  have hlength : daysInMonth d.year d.month ≤ 31 := by
    unfold daysInMonth
    split_ifs <;> omega
  simp only [less, Bool.or_eq_true, Bool.and_eq_true, decide_eq_true_eq] at hless
  omega

theorem ordinal_inj {a b : Date} : a.ordinal = b.ordinal ↔ a = b := by
  refine ⟨fun h => ?_, fun h => h ▸ rfl⟩
  rcases less_trichotomy a b with hlt | rfl | hgt
  · have hlt := ordinal_lt_of_less hlt
    omega
  · rfl
  · have hgt := ordinal_lt_of_less hgt
    omega

end Date

namespace DateTime

theorem readingLess_iff {s t : DateTime} : s.readingLess t = true ↔ s.reading < t.reading := by
  have hs := s.clock_lt
  have ht := t.clock_lt
  have hday : s.date = t.date ↔ s.date.ordinal = t.date.ordinal := Date.ordinal_inj.symm
  simp only [readingLess, Bool.or_eq_true, Bool.and_eq_true, decide_eq_true_eq, Date.less_iff, hday,
    reading, dayMicroseconds] at *
  omega

theorem reading_inj {s t : DateTime} :
    s.reading = t.reading ↔ s.date = t.date ∧ s.clock = t.clock := by
  have hs := s.clock_lt
  have ht := t.clock_lt
  have hday : s.date = t.date ↔ s.date.ordinal = t.date.ordinal := Date.ordinal_inj.symm
  simp only [hday, reading, dayMicroseconds] at *
  omega

end DateTime
end OrderedRelations
