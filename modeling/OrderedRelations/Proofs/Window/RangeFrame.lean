import Mathlib.Data.List.TakeWhile
import OrderedRelations.Proofs.Window.Bisection
import OrderedRelations.Proofs.Window.NumberLine
import OrderedRelations.Proofs.Window.PeerRuns

/-!
# Range frames with offsets

The frame of a value holds the values whose signed distance lies between its bounds. Bisection
over the coordinates of one sorted partition finds exactly that frame, whatever the direction
and the place of nulls.
-/

namespace OrderedRelations

/-- How far behind the current row a bound lies; an unbounded one has no distance. -/
def FrameBound.distance? (type : ColumnType) : FrameBound → Option ℤ
  | preceding o => some (-o.length type)
  | currentRow => some 0
  | following o => some (o.length type)
  | _ => none

def OrderKey.sign (k : OrderKey) : ℤ := if k.descending then -1 else 1

namespace FrameSpec

/-- A frame is made of bounds that can be its ends, in order, and of whole numbers if it counts
rows. -/
theorem make_eq_ok_iff {unit : FrameUnit} {start stop : FrameBound} {frame : FrameSpec} :
    make unit start stop = .ok frame ↔
      (start ≠ .unboundedFollowing ∧ stop ≠ .unboundedPreceding) ∧
      (∃ p q, start.position? = some p ∧ stop.position? = some q ∧
        FrameBound.isAfter p q = false) ∧
      (unit = .rows → checkRows start = .ok () ∧ checkRows stop = .ok ()) ∧
      frame = ⟨unit, start, stop⟩ := by
  by_cases hstart : start = .unboundedFollowing
  · simp [make, hstart]
  by_cases hstop : stop = .unboundedPreceding
  · simp [make, hstart, hstop]
  cases hp : start.position? with
  | none => simp [make, hstart, hstop, hp]
  | some p =>
    cases hq : stop.position? with
    | none => simp [make, hstart, hstop, hp, hq]
    | some q =>
      cases hafter : FrameBound.isAfter p q with
      | true => simp [make, hstart, hstop, hp, hq, hafter]
      | false =>
        by_cases hunit : unit = .rows
        · cases hcheck : checkRows start with
          | error e => simp [make, hstart, hstop, hp, hq, hafter, hunit, hcheck]
          | ok _ =>
            cases hcheck' : checkRows stop <;>
              simp [make, hstart, hstop, hp, hq, hafter, hunit, hcheck, hcheck', @eq_comm _ frame]
        · simp [make, hstart, hstop, hp, hq, hafter, hunit, @eq_comm _ frame]

theorem make_eq_ok {unit : FrameUnit} {start stop : FrameBound} {frame : FrameSpec}
    (h : make unit start stop = .ok frame) :
    start ≠ .unboundedFollowing ∧ stop ≠ .unboundedPreceding ∧ frame = ⟨unit, start, stop⟩ := by
  obtain ⟨⟨hstart, hstop⟩, -, -, hframe⟩ := make_eq_ok_iff.mp h
  exact ⟨hstart, hstop, hframe⟩

/-- Whether the frame of a row whose value is not null holds a row with another value: nulls lie
beyond an unbounded bound, values within the distances of both bounds. -/
def Holds (frame : FrameSpec) (k : OrderKey) (type : ColumnType) (a b : Value) : Prop :=
  if b.isNull then
    (k.nulls = .first ∧ frame.start = .unboundedPreceding) ∨
      (k.nulls = .last ∧ frame.stop = .unboundedFollowing)
  else
    (∀ d, frame.start.distance? type = some d → d ≤ k.sign * (b.point - a.point)) ∧
      ∀ d, frame.stop.distance? type = some d → k.sign * (b.point - a.point) ≤ d

/-- The span of a position among sorted values. A null has the block of nulls, extended to the
ends of the partition by unbounded bounds. -/
structure Spans (frame : FrameSpec) (k : OrderKey) (type : ColumnType) (values : List Value)
    (i : ℕ) (s : Span) : Prop where
  inside : 0 ≤ s.first ∧ s.stop ≤ values.length
  of_value : ∀ a, values[i]? = some a → a.isNull = false → ∀ (j : ℕ) b, values[j]? = some b →
    (s.first ≤ j ∧ (j : ℤ) < s.stop ↔ frame.Holds k type a b)
  of_null : ∀ a, values[i]? = some a → a.isNull = true → ∃ first stop : ℤ,
    (∀ (j : ℕ) b, values[j]? = some b → (b.isNull = true ↔ first ≤ j ∧ (j : ℤ) < stop)) ∧
      s.first = (if frame.start = .unboundedPreceding then 0 else first) ∧
      s.stop = (if frame.stop = .unboundedFollowing then (values.length : ℤ) else stop)

end FrameSpec

namespace FrameExtent

/-- The values of a partition that a key has put in order. -/
structure Arranged (k : OrderKey) (type : ColumnType) (values : List Value) : Prop where
  whole : type.Whole
  typed : ∀ v ∈ values, v.conforms type = true
  comparable : ∀ v ∈ values, v.comparable?.isSome = true
  sorted : values.Pairwise fun v w => k.spot v ≤ k.spot w

/-- The values that are not null. -/
def settled (values : List Value) : List Value := values.filter fun v => !v.isNull

/-- The number of nulls in front. -/
def front (values : List Value) : ℕ := (values.takeWhile Value.isNull).length

variable {k : OrderKey} {type : ColumnType} {values : List Value}

theorem Arranged.levels_sorted (h : Arranged k type values) :
    values.Pairwise fun v w => k.level v ≤ k.level w := by
  refine h.sorted.imp fun {v w} hle => ?_
  by_contra hlt
  exact absurd hle (not_le.mpr (OrderKey.spot_lt_iff.mpr (.inl (by omega))))

/-- With nulls first, the values follow the nulls in front. -/
theorem eq_append_settled (hn : k.nullsFirst = true)
    (hsorted : values.Pairwise fun v w => k.level v ≤ k.level w) :
    values = values.takeWhile Value.isNull ++ settled values := by
  induction values with
  | nil => rfl
  | cons v rest ih =>
    obtain ⟨hhead, htail⟩ := List.pairwise_cons.mp hsorted
    cases hv : v.isNull with
    | true => simpa [settled, hv] using ih htail
    | false =>
      have hrest : ∀ w ∈ rest, w.isNull = false := by
        intro w hw
        have hle := hhead w hw
        by_contra hnull
        simp [k.level_of_not_null hv, k.level_of_null (by simpa using hnull), hn] at hle
      have hall : settled rest = rest :=
        List.filter_eq_self.mpr fun w hw => by simp [hrest w hw]
      rw [settled] at hall
      simp [settled, hv, hall]

/-- With nulls last, the values come first. -/
theorem eq_settled_append (hn : k.nullsFirst = false)
    (hsorted : values.Pairwise fun v w => k.level v ≤ k.level w) :
    values = settled values ++ values.filter Value.isNull := by
  induction values with
  | nil => rfl
  | cons v rest ih =>
    obtain ⟨hhead, htail⟩ := List.pairwise_cons.mp hsorted
    cases hv : v.isNull with
    | false => simpa [settled, hv] using ih htail
    | true =>
      have hrest : ∀ w ∈ rest, w.isNull = true := by
        intro w hw
        have hle := hhead w hw
        by_contra hnull
        simp [k.level_of_not_null (by simpa using hnull), k.level_of_null hv, hn] at hle
      have hnone : settled rest = [] := by simpa [settled] using hrest
      have hall : rest.filter Value.isNull = rest := List.filter_eq_self.mpr hrest
      simpa [settled, hv, hall] using hnone

/-- With nulls last, none stands in front of a value. -/
theorem front_eq_zero (hn : k.nullsFirst = false)
    (hsorted : values.Pairwise fun v w => k.level v ≤ k.level w)
    (hsome : ∃ v ∈ values, v.isNull = false) : front values = 0 := by
  obtain ⟨v, hv, hnull⟩ := hsome
  have hmem : v ∈ settled values := List.mem_filter.mpr ⟨hv, by simp [hnull]⟩
  cases hs : settled values with
  | nil => simp [hs] at hmem
  | cons w rest =>
    have hw : w ∈ settled values := by simp [hs]
    rw [front, eq_settled_append hn hsorted, hs]
    simp [show w.isNull = false by simpa using (List.mem_filter.mp hw).2]

/-- Where some value is not null, the nulls stand outside the stretch of the others. -/
theorem place_of_levels (hsorted : values.Pairwise fun v w => k.level v ≤ k.level w)
    (hsome : ∃ v ∈ values, v.isNull = false) {j : ℕ} {v : Value} (hv : values[j]? = some v) :
    (∃ c, j = front values + c ∧ (settled values)[c]? = some v ∧ v.isNull = false) ∨
      (v.isNull = true ∧ k.nullsFirst = true ∧ j < front values) ∨
      (v.isNull = true ∧ k.nullsFirst = false ∧ front values + (settled values).length ≤ j) := by
  have hsettled : ∀ {c : ℕ} {w : Value}, (settled values)[c]? = some w → w.isNull = false := by
    intro c w hw
    have hmem := List.mem_filter.mp (List.mem_of_getElem? hw)
    simpa using hmem.2
  cases hn : k.nullsFirst with
  | true =>
    have hsplit := eq_append_settled hn hsorted
    by_cases hj : j < front values
    · refine .inr (.inl ⟨?_, rfl, hj⟩)
      rw [hsplit, List.getElem?_append_left hj] at hv
      have hmem := List.mem_of_getElem? hv
      exact (List.mem_takeWhile_imp hmem)
    · rw [hsplit, List.getElem?_append_right (Nat.le_of_not_lt hj)] at hv
      have hc : j = front values + (j - front values) := by omega
      exact .inl ⟨j - front values, hc, hv, hsettled hv⟩
  | false =>
    have hsplit := eq_settled_append hn hsorted
    have hfront := front_eq_zero hn hsorted hsome
    by_cases hj : j < (settled values).length
    · rw [hsplit, List.getElem?_append_left hj] at hv
      exact .inl ⟨j, by omega, hv, hsettled hv⟩
    · rw [hsplit, List.getElem?_append_right (Nat.le_of_not_lt hj)] at hv
      have hmem := List.mem_filter.mp (List.mem_of_getElem? hv)
      exact .inr (.inr ⟨hmem.2, rfl, by omega⟩)

theorem coordinate?_eq_none {view : RangeView} {i : ℕ} {v : Value} (hv : view.values[i]? = some v)
    (hnull : v.isNull = true) : view.coordinate? i = none := by
  simp [RangeView.coordinate?, Arrangement.valueAt, hv, hnull]

/-- Where the nulls stand in one block, a value has the coordinate of its place among the others. -/
theorem exists_place {view : RangeView} (hbase : view.base = front view.values)
    (hsorted : view.values.Pairwise fun v w => k.level v ≤ k.level w) {i : ℕ} {v : Value}
    (hv : view.values[i]? = some v) (hnull : v.isNull = false) :
    ∃ c : ℕ, (settled view.values)[c]? = some v ∧ view.coordinate? i = view.coordinates[c]? := by
  have hsome : ∃ v ∈ view.values, v.isNull = false := ⟨v, List.mem_of_getElem? hv, hnull⟩
  rcases place_of_levels hsorted hsome hv with ⟨c, rfl, hc, -⟩ | ⟨hcon, -⟩ | ⟨hcon, -⟩
  · exact ⟨c, hc, by simp [RangeView.coordinate?, Arrangement.valueAt, hv, hnull, hbase]⟩
  · simp [hnull] at hcon
  · simp [hnull] at hcon

/-- The coordinates that bisection searches. -/
def coordinates (k : OrderKey) (values : List Value) : Array Quantity :=
  (((settled values).map k.signed).map Quantity.whole).toArray

theorem Arranged.signedCoordinates_eq (h : Arranged k type values) :
    signedCoordinates type k.descending values =
      .ok (((settled values).map k.signed).map Quantity.whole) := by
  rw [List.map_map]
  apply Result.mapM_eq_map
  intro v hv
  obtain ⟨hmem, hnull⟩ := List.mem_filter.mp hv
  have hq := Value.quantityAt_eq h.whole (h.typed v hmem) (by simpa using hnull)
    (h.comparable v hmem)
  cases hd : k.descending <;> simp [hq, OrderKey.signed, hd, Quantity.neg]

theorem Arranged.signed_sorted (h : Arranged k type values) :
    ((settled values).map k.signed).Pairwise (· ≤ ·) := by
  rw [List.pairwise_map]
  refine (h.sorted.filter _).imp_of_mem ?_
  intro v w hv hw hle
  have hnv : v.isNull = false := by simpa using (List.mem_filter.mp hv).2
  have hnw : w.isNull = false := by simpa using (List.mem_filter.mp hw).2
  rw [OrderKey.spot, OrderKey.spot, k.level_of_not_null hnv, k.level_of_not_null hnw,
    Prod.Lex.toLex_le_toLex] at hle
  simpa using hle

private theorem Arranged.coordinate_at {c : ℕ} {v : Value} (hc : (settled values)[c]? = some v) :
    ((settled values).map k.signed)[c]? = some (k.signed v) := by
  simp [hc]

/-- Counting coordinates below a target counts the positions below its spot. -/
theorem Arranged.lt_below_iff (h : Arranged k type values)
    (hsome : ∃ v ∈ values, v.isNull = false) {j : ℕ} {v : Value} (hv : values[j]? = some v)
    (target : ℤ) : j < front values + countBelow (coordinates k values) (.whole target) ↔
      k.spot v < toLex (1, target) := by
  have hle := countBelow_le (coordinates k values) (.whole target)
  simp only [coordinates, List.size_toArray, List.length_map] at hle
  rw [OrderKey.spot, Prod.Lex.toLex_lt_toLex]
  rcases place_of_levels h.levels_sorted hsome hv with ⟨c, rfl, hc, hnull⟩ | ⟨hnull, hn, hj⟩ | ⟨hnull, hn, hj⟩
  · have hcount := lt_countBelow_iff h.signed_sorted target (Arranged.coordinate_at hc)
    simp only [k.level_of_not_null hnull, Nat.lt_irrefl, true_and, false_or, ← hcount, coordinates]
    omega
  · simp only [k.level_of_null hnull, hn, if_true]
    omega
  · simp only [k.level_of_null hnull, hn, coordinates, Bool.false_eq_true, if_false]
    omega

theorem Arranged.lt_through_iff (h : Arranged k type values)
    (hsome : ∃ v ∈ values, v.isNull = false) {j : ℕ} {v : Value} (hv : values[j]? = some v)
    (target : ℤ) : j < front values + countThrough (coordinates k values) (.whole target) ↔
      k.spot v ≤ toLex (1, target) := by
  have hle := countThrough_le (coordinates k values) (.whole target)
  simp only [coordinates, List.size_toArray, List.length_map] at hle
  rw [OrderKey.spot, Prod.Lex.toLex_le_toLex]
  rcases place_of_levels h.levels_sorted hsome hv with ⟨c, rfl, hc, hnull⟩ | ⟨hnull, hn, hj⟩ | ⟨hnull, hn, hj⟩
  · have hcount := lt_countThrough_iff h.signed_sorted target (Arranged.coordinate_at hc)
    simp only [k.level_of_not_null hnull, Nat.lt_irrefl, true_and, false_or, ← hcount, coordinates]
    omega
  · simp only [k.level_of_null hnull, hn, if_true]
    omega
  · simp only [k.level_of_null hnull, hn, coordinates, Bool.false_eq_true, if_false]
    omega

end FrameExtent
end OrderedRelations
