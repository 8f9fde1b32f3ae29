import Mathlib.Order.Interval.Set.Nat
import OrderedRelations.Proofs.Calendar.DayCounts

/-!
# Days between dates

Every date but the last has a next one, so the dates from one date up to another are as many as the
difference of their day counts, and every day count of the calendar has its date.
-/

namespace OrderedRelations

namespace Calendar

theorem daysInMonth_pos (year month : ℕ) : 1 ≤ daysInMonth year month := by
  unfold daysInMonth
  split_ifs <;> decide

/-- A day count behind the calendar falls into a year behind it. -/
theorem year_of_large {n : ℕ} (h : 3652059 ≤ n) : 9999 < (yearAndDay n).1 := by
  have hperiods : n / 146097 = 24 ∧ 145731 ≤ n % 146097 ∨ 25 ≤ n / 146097 := by omega
  simp only [yearAndDay]
  rcases hperiods with ⟨hperiods, hrest⟩ | hperiods
  · have hcenturies : min (n % 146097 / 36524) 3 = 3 := by omega
    rw [hperiods, hcenturies]
    have hcycles : (n % 146097 - 36524 * 3) / 1461 = 24 := by omega
    have hyears : min ((n % 146097 - 36524 * 3) % 1461 / 365) 3 = 3 := by omega
    rw [hcycles, hyears]
    decide
  · omega

end Calendar

namespace Date

open Calendar

/-- Behind a date comes the next day of its month, the first of the next month or the first of the
next year. -/
theorem exists_next {d : Date} (h : d.ordinal < 3652059) :
    ∃ e : Date, e.ordinal = d.ordinal + 1 := by
  obtain ⟨hyear, hmonth, hmonth', hday, hday'⟩ := d.bounds
  have hyear' := d.year_le
  have hend := daysBeforeMonth_succ d.year hmonth
  have hfirst := daysInMonth_pos
  rcases Nat.lt_or_ge d.day (daysInMonth d.year d.month) with hin | hlast
  · exact ⟨⟨d.year, d.month, d.day + 1, by simp [isDate]; omega⟩, by simp only [ordinal]; omega⟩
  rcases Nat.lt_or_ge d.month 12 with hin | hdecember
  · refine ⟨⟨d.year, d.month + 1, 1, by simp [isDate, hfirst]; omega⟩, ?_⟩
    simp only [ordinal]
    omega
  have htwelve : d.month = 12 := by omega
  have hsucc := daysBeforeYear_succ hyear
  have hnew : d.ordinal + 1 = daysBeforeYear (d.year + 1) + 1 := by
    simp only [ordinal, htwelve, Nat.reduceAdd] at *
    omega
  have hbefore : d.year < 9999 := by
    by_contra hnot
    have hlast : d.year + 1 = 10000 := by omega
    rw [hlast] at hnew
    have hall : daysBeforeYear 10000 = 3652059 := rfl
    omega
  refine ⟨⟨d.year + 1, 1, 1, by simp [isDate, hfirst]; omega⟩, ?_⟩
  rw [hnew]
  rfl

/-- Every day count from the first day to the last one has a date. -/
theorem exists_ordinal {n : ℕ} (h : 1 ≤ n) (hn : n ≤ 3652059) : ∃ d : Date, d.ordinal = n := by
  induction n, h using Nat.le_induction with
  | base => exact ⟨⟨1, 1, 1, by decide⟩, rfl⟩
  | succ n _ ih =>
    obtain ⟨d, hd⟩ := ih (by omega)
    obtain ⟨e, he⟩ := exists_next (d := d) (by omega)
    exact ⟨e, by rw [he, hd]⟩

/-- A date is found exactly for its own day count. -/
theorem ofOrdinal?_eq_some_iff {n : ℤ} {d : Date} : ofOrdinal? n = some d ↔ (d.ordinal : ℤ) = n := by
  constructor
  · intro h
    by_cases hpos : n < 1
    · simp [ofOrdinal?, hpos] at h
    by_cases hlast : n ≤ 3652059
    · obtain ⟨e, he⟩ := exists_ordinal (n := n.toNat) (by omega) (by omega)
      have hn : n = e.ordinal := by omega
      rw [hn, ofOrdinal?_ordinal, Option.some.injEq] at h
      rw [hn, h]
    · have hyear := year_of_large (n := (n - 1).toNat) (by omega)
      simp only [ofOrdinal?, if_neg hpos, ofFields?, Option.dite_none_right_eq_some,
        Option.some.injEq] at h
      obtain ⟨hvalid, -⟩ := h
      exact absurd (year_le ⟨_, _, _, hvalid⟩) (by simpa using hyear)
  · rintro rfl
    exact ofOrdinal?_ordinal d

/-- The dates from one date on and before another one. -/
def fromUntil (a b : Date) : Set Date := {d | d.less a = false ∧ d.less b = true}

/-- The number of days from one date to another, counted date by date and negative where the other
one is earlier. -/
noncomputable def daysTo (a b : Date) : ℤ := (fromUntil a b).ncard - (fromUntil b a).ncard

theorem ncard_fromUntil (a b : Date) : (fromUntil a b).ncard = b.ordinal - a.ordinal := by
  have hcounts : ordinal '' fromUntil a b = Set.Ico a.ordinal b.ordinal := by
    ext n
    simp only [Set.mem_image, Set.mem_Ico, fromUntil, Set.mem_ofPred_eq, ← Bool.not_eq_true, less_iff,
      not_lt]
    constructor
    · rintro ⟨d, hd, rfl⟩
      exact hd
    · intro hn
      have ha := a.ordinal_mem
      have hb := b.ordinal_mem
      obtain ⟨d, rfl⟩ := exists_ordinal (n := n) (by omega) (by omega)
      exact ⟨d, hn, rfl⟩
  have hinjective : Function.Injective ordinal := fun _ _ h => ordinal_inj.mp h
  rw [← Set.ncard_image_of_injective _ hinjective, hcounts, Set.ncard_Ico_nat]

theorem daysTo_eq (a b : Date) : a.daysTo b = (b.ordinal : ℤ) - a.ordinal := by
  rw [daysTo, ncard_fromUntil, ncard_fromUntil]
  omega

end Date

namespace DateTime

/-- The microseconds from one reading of date and clock to another, without regard to offsets. -/
noncomputable def microsecondsTo (s t : DateTime) : ℤ :=
  s.date.daysTo t.date * dayMicroseconds + ((t.clock : ℤ) - s.clock)

theorem microsecondsTo_eq (s t : DateTime) : s.microsecondsTo t = t.reading - s.reading := by
  rw [microsecondsTo, Date.daysTo_eq, Int.sub_mul]
  simp only [reading]
  omega

/-- A naive moment is the reading in UTC of a moment that is as far ahead of it as its offset says;
a naive moment is read as UTC. -/
def UtcReading (t u : DateTime) : Prop :=
  u.offset = none ∧ u.microsecondsTo t = t.offset.getD 0

theorem utcReading_iff {t u : DateTime} :
    t.UtcReading u ↔ u.offset = none ∧ u.reading = t.instant := by
  rw [UtcReading, microsecondsTo_eq, instant]
  exact and_congr_right fun _ => by omega

/-- A naive moment is found exactly for its own reading. -/
theorem ofReading?_eq_some_iff {n : ℤ} {u : DateTime} :
    ofReading? n = some u ↔ u.offset = none ∧ u.reading = n := by
  have hday : (dayMicroseconds : ℤ) = 86400000000 := rfl
  have hfmod : Int.fmod n dayMicroseconds = n % dayMicroseconds :=
    Int.fmod_eq_emod_of_nonneg n (by decide)
  have hfdiv : Int.fdiv n dayMicroseconds = n / dayMicroseconds :=
    Int.fdiv_eq_ediv_of_nonneg n (by decide)
  simp only [ofReading?, Option.bind_eq_some_iff, Date.ofOrdinal?_eq_some_iff, hfdiv, hfmod,
    Option.dite_none_right_eq_some, Option.some.injEq]
  constructor
  · rintro ⟨d, hd, hclock, rfl⟩
    refine ⟨rfl, ?_⟩
    simp only [reading, hday] at *
    omega
  · rintro ⟨hnaive, rfl⟩
    have hclock := u.clock_lt
    have hcount : (u.date.ordinal : ℤ) = u.reading / dayMicroseconds := by
      simp only [reading, hday, dayMicroseconds] at *
      omega
    have hrest : (u.reading % dayMicroseconds).toNat = u.clock := by
      simp only [reading, hday, dayMicroseconds] at *
      omega
    refine ⟨u.date, hcount, by rw [hrest]; exact hclock, ?_⟩
    simp only [hrest, ← hnaive]

/-- A moment becomes its reading in UTC, and nothing where it has none. -/
theorem utc?_eq_some_iff {t u : DateTime} : t.utc? = some u ↔ t.UtcReading u := by
  rw [utcReading_iff, utc?]
  split
  · rename_i hnaive
    rw [Option.some.injEq]
    constructor
    · rintro rfl
      exact ⟨hnaive, by simp [instant, hnaive]⟩
    · rintro ⟨hu, hreading⟩
      have hfields : u.date = t.date ∧ u.clock = t.clock :=
        reading_inj.mp (by simpa [instant, hnaive] using hreading)
      cases t
      cases u
      simp_all
  · exact ofReading?_eq_some_iff

theorem UtcReading.unique {t u v : DateTime} (hu : t.UtcReading u) (hv : t.UtcReading v) : u = v :=
  Option.some.inj ((utc?_eq_some_iff.mpr hu).symm.trans (utc?_eq_some_iff.mpr hv))

end DateTime
end OrderedRelations
