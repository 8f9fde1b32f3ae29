import OrderedRelations.Proofs.Calendar.DaysBetween
import OrderedRelations.Proofs.Result
import OrderedRelations.Proofs.Value.Order
import OrderedRelations.Window.Coordinate

/-!
# Coordinates in sorted order

Sorting compares dates field by field, and moments by the fields of their readings in UTC. Range
frames and streaks place both on a number line instead. The two orders are one, and places lie as
far apart as the dates or the readings do.
-/

namespace OrderedRelations

theorem DateTime.instant_of_naive {t : DateTime} (h : t.offset = none) : t.instant = t.reading := by
  simp [instant, h]

namespace Value

/-- Two values are sorted by their comparable forms as their places on the number line lie, with so
much between them; forms are equal where the places are one. -/
structure SortsAsPlaced (type : ColumnType) (a b p q : Value) (apart : ℤ) : Prop where
  comparable : a.comparable? = some p ∧ b.comparable? = some q
  placed : ∃ x y : ℤ, a.coordinate type = .ok (.int x) ∧ b.coordinate type = .ok (.int y) ∧
    p.less? q = some (decide (x < y)) ∧ p.same q = decide (x = y) ∧ y - x = apart

theorem sortsAsPlaced_date (a b : Date) :
    SortsAsPlaced .date (.date a) (.date b) (.date a) (.date b) (a.daysTo b) := by
  have hless : a.less b = decide ((a.ordinal : ℤ) < b.ordinal) := by
    simp [← Date.less_iff]
  have hsame : decide (a = b) = decide ((a.ordinal : ℤ) = b.ordinal) := by
    simp [Date.ordinal_inj]
  exact ⟨⟨rfl, rfl⟩, a.ordinal, b.ordinal, rfl, rfl, by rw [less?, hless], by rw [same, hsame],
    (Date.daysTo_eq a b).symm⟩

theorem comparable?_of_utcReading {t u : DateTime} (h : t.UtcReading u) :
    (datetime t).comparable? = some (.datetime u) := by
  rw [comparable?, DateTime.utc?_eq_some_iff.mpr h, Option.map_some]

theorem comparable?_of_no_utcReading {t : DateTime} (h : ¬ ∃ u, t.UtcReading u) :
    (datetime t).comparable? = none := by
  rw [comparable?, Option.map_eq_none_iff, Option.eq_none_iff_forall_ne_some]
  exact fun u hu => h ⟨u, DateTime.utc?_eq_some_iff.mp hu⟩

theorem coordinate_of_utcReading {t u : DateTime} (h : t.UtcReading u) :
    (datetime t).coordinate .datetime =
      .ok (.int (u.reading - (Date.epochOrdinal : ℤ) * dayMicroseconds)) := by
  rw [coordinate, DateTime.utc?_eq_some_iff.mpr h, Result.orElse_some, Result.map_ok,
    DateTime.sinceEpoch, DateTime.instant_of_naive h.1]

theorem sortsAsPlaced_datetime {s t u v : DateTime} (hs : s.UtcReading u) (ht : t.UtcReading v) :
    SortsAsPlaced .datetime (.datetime s) (.datetime t) (.datetime u) (.datetime v)
      (u.microsecondsTo v) := by
  have hu : u.isAware = false := by rw [DateTime.isAware, hs.1, Option.isSome_none]
  have hv : v.isAware = false := by rw [DateTime.isAware, ht.1, Option.isSome_none]
  refine ⟨⟨comparable?_of_utcReading hs, comparable?_of_utcReading ht⟩, _, _,
    coordinate_of_utcReading hs, coordinate_of_utcReading ht, ?_, ?_, ?_⟩
  · have hless : u.readingLess v = decide (u.reading < v.reading) := by
      simp [← DateTime.readingLess_iff]
    simp [less?, hu, hv, hless]
  · have hsame : u.same v = decide (u.reading = v.reading) := by
      simp [DateTime.same, hu, hv, DateTime.reading_inj]
    simp [same, hsame]
  · rw [DateTime.microsecondsTo_eq]
    omega

/-- Coordinates order dates and moments as sorting does. Between the coordinates of dates lie the
days between them, and between those of moments, naive or at any offset, before 1970 or after it, the
microseconds between their readings in UTC. A moment without such a reading has neither a comparable
form nor a coordinate. -/
theorem sorts_as_placed :
    (∀ a b : Date,
      SortsAsPlaced .date (.date a) (.date b) (.date a) (.date b) (a.daysTo b)) ∧
    (∀ s t u v : DateTime, s.UtcReading u → t.UtcReading v →
      SortsAsPlaced .datetime (.datetime s) (.datetime t) (.datetime u) (.datetime v)
        (u.microsecondsTo v)) ∧
    ∀ t : DateTime, (¬ ∃ u, t.UtcReading u) →
      (datetime t).comparable? = none ∧ (datetime t).coordinate .datetime = .error .overflow := by
  refine ⟨sortsAsPlaced_date, fun s t u v hs ht => sortsAsPlaced_datetime hs ht, ?_⟩
  intro t hnone
  have hcomparable := comparable?_of_no_utcReading hnone
  have hutc : t.utc? = none := Option.map_eq_none_iff.mp hcomparable
  exact ⟨hcomparable, by rw [coordinate, hutc, Result.orElse_none, Result.map_error]⟩

/-- Half past eleven on the last evening of 1969, an hour behind UTC, where 1970 has begun. -/
def lateEvening : DateTime := ⟨⟨1969, 12, 31, by decide⟩, 84600000000, by decide, some (-3600000000)⟩

def earlyMorning : DateTime := ⟨⟨1970, 1, 1, by decide⟩, 1800000000, by decide, none⟩

/-- The last microsecond of 1969 in UTC. -/
def yearEnd : DateTime := ⟨⟨1969, 12, 31, by decide⟩, 86399999999, by decide, none⟩

theorem sorts_as_placed_yearEnd :
    (lateEvening.UtcReading earlyMorning ∧ yearEnd.UtcReading yearEnd) ∧
    SortsAsPlaced .datetime (.datetime lateEvening) (.datetime yearEnd) (.datetime earlyMorning)
      (.datetime yearEnd) (-1800000001) := by
  have hevening : lateEvening.UtcReading earlyMorning :=
    DateTime.utcReading_iff.mpr ⟨rfl, by decide⟩
  have hend : yearEnd.UtcReading yearEnd := DateTime.utcReading_iff.mpr ⟨rfl, by decide⟩
  have hapart : earlyMorning.microsecondsTo yearEnd = -1800000001 := by
    rw [DateTime.microsecondsTo_eq]
    decide
  exact ⟨⟨hevening, hend⟩, hapart ▸ sorts_as_placed.2.1 _ _ _ _ hevening hend⟩

end Value
end OrderedRelations
