import OrderedRelations.Proofs.Result
import OrderedRelations.Proofs.Window.KeyOrder
import OrderedRelations.Window.FrameExtent

/-!
# Order columns on a number line

Whole numbers, days and moments have whole coordinates, and offsets beside them whole lengths.
The spot of a value is its level followed by its coordinate, negated under a descending key:
the order of a key, and equality of its values, are those of spots.
-/

namespace OrderedRelations

/-- The column types whose coordinates are whole. -/
def ColumnType.Whole (type : ColumnType) : Prop :=
  type = .integer ∨ type = .date ∨ type = .datetime

/-- The coordinate of a whole number, a day or a moment; a naive moment is read as UTC. -/
def Value.point : Value → ℤ
  | int n => n
  | date d => d.ordinal
  | datetime t => (t.utc?.map DateTime.sinceEpoch).getD 0
  | _ => 0

namespace Offset

/-- The length of an offset beside a column: numbers mean days beside moments. -/
def length (type : ColumnType) : Offset → ℤ
  | whole n => if type = .datetime then n * dayMicroseconds else n
  | duration m => m
  | real _ => 0

/-- Whole offsets beside whole numbers, days and moments, and durations beside moments. -/
def Measures (type : ColumnType) : Offset → Prop
  | whole _ => type.Whole
  | duration _ => type = .datetime
  | real _ => False

theorem Measures.whole {type : ColumnType} {o : Offset} (h : o.Measures type) : type.Whole := by
  cases o with
  | whole n => exact h
  | duration m => exact .inr (.inr h)
  | real x => exact h.elim

end Offset

theorem FrameExtent.target_eq {type : ColumnType} {o : Offset} (h : o.Measures type) (c : ℤ)
    (backward : Bool) : target type (.whole c) backward o =
      .ok (.whole (if backward then c - o.length type else c + o.length type)) := by
  cases o with
  | whole n =>
    rcases h with rfl | rfl | rfl <;> cases backward <;>
      simp [target, Offset.inUnitsOf, Offset.quantity?, Offset.length]
  | duration m =>
    cases h
    cases backward <;> simp [target, Offset.inUnitsOf, Offset.quantity?, Offset.length]
  | real x => exact h.elim

namespace Value

theorem coordinate_eq {type : ColumnType} (htype : type.Whole) {v : Value}
    (hv : v.conforms type = true) (hnull : v.isNull = false)
    (hc : v.comparable?.isSome = true) : v.coordinate type = .ok (.int v.point) := by
  rcases htype with rfl | rfl | rfl <;> cases v <;> simp [conforms, isNull] at hv hnull
  · rfl
  · rfl
  · rename_i t
    obtain ⟨u, hu⟩ : ∃ u, t.utc? = some u := by
      simpa [comparable?, Option.isSome_iff_exists] using hc
    simp [coordinate, point, hu]

theorem quantityAt_eq {type : ColumnType} (htype : type.Whole) {v : Value}
    (hv : v.conforms type = true) (hnull : v.isNull = false)
    (hc : v.comparable?.isSome = true) : v.quantityAt type = .ok (.whole v.point) := by
  simp [quantityAt, coordinate_eq htype hv hnull hc, quantity?]

/-- The rank of a value without its unit: ranks of moments count from year 1. -/
theorem rank_eq_point {type : ColumnType} (htype : type.Whole) {v w : Value}
    (hv : v.conforms type = true) (hnull : v.isNull = false) (hw : v.comparable? = some w) :
    w.rank = numberRank (0, ((v.point +
      if type = .datetime then (Date.epochOrdinal : ℤ) * dayMicroseconds else 0 : ℤ) : ℚ)) := by
  rcases htype with rfl | rfl | rfl <;> cases v <;> simp [conforms, isNull] at hv hnull
  · cases hw
    simp [rank, point]
  · cases hw
    simp [rank, point]
  · rename_i t
    obtain ⟨u, hu, rfl⟩ := Option.map_eq_some_iff.mp hw
    have haware := DateTime.isAware_of_utc? hu
    have hinstant : u.instant = u.reading := by
      cases ho : u.offset with
      | none => simp [DateTime.instant, ho]
      | some o => simp [DateTime.isAware, ho] at haware
    have hpoint : u.reading = (u.sinceEpoch + (Date.epochOrdinal : ℤ) * dayMicroseconds) := by
      simp [DateTime.sinceEpoch, hinstant]
    simp only [rank, point, hu, Option.map_some, Option.getD_some, if_true, ← hpoint]

theorem isNaN_of_whole {type : ColumnType} (htype : type.Whole) {v : Value}
    (hv : v.conforms type = true) : v.isNaN = false := by
  cases v with
  | float x => rcases htype with rfl | rfl | rfl <;> simp [conforms] at hv
  | _ => rfl

theorem sortable_of_whole {type : ColumnType} (htype : type.Whole) {v w : Value}
    (hv : v.conforms type = true) (hw : v.comparable? = some w) : Sortable type w :=
  ⟨conforms_of_comparable? hw hv, isNaive_of_comparable? hw,
    (isNaN_of_comparable? hw).trans (isNaN_of_whole htype hv)⟩

end Value

namespace OrderKey

/-- The coordinate of a value, negated under a descending key. -/
def signed (k : OrderKey) (v : Value) : ℤ := if k.descending then -v.point else v.point

/-- The level of a value and its signed coordinate. -/
def spot (k : OrderKey) (v : Value) : ℕ ×ₗ ℤ := toLex (k.level v, k.signed v)

theorem level_of_comparable? (k : OrderKey) {v w : Value} (h : v.comparable? = some w) :
    k.level w = k.level v := by
  simp [level, Value.isNull_of_comparable? h]

theorem spot_lt_iff {k : OrderKey} {v w : Value} : k.spot v < k.spot w ↔
    k.level v < k.level w ∨ k.level v = k.level w ∧ k.signed v < k.signed w := by
  simp [spot, Prod.Lex.toLex_lt_toLex]

theorem spot_inj {k : OrderKey} {v w : Value} :
    k.spot v = k.spot w ↔ k.level v = k.level w ∧ k.signed v = k.signed w := by
  simp [spot]

theorem level_of_not_null (k : OrderKey) {v : Value} (h : v.isNull = false) : k.level v = 1 := by
  simp [level, h]

theorem level_of_null (k : OrderKey) {v : Value} (h : v.isNull = true) :
    k.level v = if k.nullsFirst then 0 else 2 := by
  simp [level, h]

/-- Nulls and other values never share a level. -/
theorem isNull_eq_of_level_eq {k : OrderKey} {v w : Value} (h : k.level v = k.level w) :
    v.isNull = w.isNull := by
  cases hv : v.isNull <;> cases hw : w.isNull <;> cases hn : k.nullsFirst <;>
    simp [level, hv, hw, hn] at h ⊢

variable {type : ColumnType} {v w v' w' : Value}

/-- A key orders values as their spots are ordered. -/
theorem before_eq_spot (k : OrderKey) (htype : type.Whole) (hv : v.conforms type = true)
    (hw : w.conforms type = true) (hv' : v.comparable? = some v') (hw' : w.comparable? = some w') :
    k.before v' w' = decide (k.spot v < k.spot w) := by
  rw [k.before_eq (Value.sortable_of_whole htype hv hv') (Value.sortable_of_whole htype hw hw'),
    k.level_of_comparable? hv', k.level_of_comparable? hw']
  simp only [spot_lt_iff]
  rcases Nat.lt_trichotomy (k.level v) (k.level w) with hlt | heq | hgt
  · simp [hlt]
  · have hnull := isNull_eq_of_level_eq heq
    cases hnw : w.isNull with
    | true =>
      rw [hnw] at hnull
      rw [Value.isNull_iff.mp hnull] at hv' ⊢
      rw [Value.isNull_iff.mp hnw] at hw' ⊢
      cases hv'
      cases hw'
      simp
    | false =>
      rw [hnw] at hnull
      rw [Value.rank_eq_point htype hv hnull hv', Value.rank_eq_point htype hw hnw hw']
      simp only [Value.numberRank_lt, Int.cast_lt, heq]
      cases hd : k.descending <;> simp [signed, hd]
  · simp [hgt, Nat.lt_asymm hgt, Nat.ne_of_gt hgt]

/-- Values of an order column are equal keys where their spots agree. -/
theorem sameKey_eq_spot (k : OrderKey) (htype : type.Whole) (hv : v.conforms type = true)
    (hw : w.conforms type = true) (hv' : v.comparable? = some v') (hw' : w.comparable? = some w') :
    v'.sameKey w' = decide (k.spot v = k.spot w) := by
  have hnv := Value.isNull_of_comparable? hv'
  have hnw := Value.isNull_of_comparable? hw'
  by_cases hsame : v.isNull = w.isNull
  · cases hnull : v.isNull with
    | true =>
      rw [hnull] at hsame hnv
      rw [← hsame] at hnw
      rw [Value.isNull_iff.mp hnv, Value.isNull_iff.mp hnw, Value.isNull_iff.mp hnull,
        Value.isNull_iff.mp hsame.symm]
      simp [Value.sameKey, Value.same]
    | false =>
      rw [hnull] at hsame hnv
      rw [← hsame] at hnw
      rw [(Value.sortable_of_whole htype hv hv').sameKey_eq (Value.sortable_of_whole htype hw hw')
        hnv hnw, Value.rank_eq_point htype hv hnull hv',
        Value.rank_eq_point htype hw hsame.symm hw']
      simp only [Value.numberRank_inj, Prod.mk.injEq, Rat.intCast_inj, spot_inj,
        k.level_of_not_null hnull, k.level_of_not_null hsame.symm]
      cases hd : k.descending <;> simp [signed, hd]
  · have hkey : v'.sameKey w' = false := by
      by_contra hcon
      have hnull := Value.isNull_eq_of_sameKey (by simpa using hcon)
      exact hsame (hnv ▸ hnw ▸ hnull)
    have hspot : k.spot v ≠ k.spot w := fun h => hsame (isNull_eq_of_level_eq (spot_inj.mp h).1)
    simp [hkey, hspot]

end OrderKey
end OrderedRelations
