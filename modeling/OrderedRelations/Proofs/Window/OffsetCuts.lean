import Mathlib.Algebra.Order.Group.Unbundled.Basic
import OrderedRelations.Proofs.Window.LeadingRows
import OrderedRelations.Proofs.Window.SpanBounds

/-!
# Cuts by offsets

Whatever the type of an order column, doubles included, its coordinates ascend in sorted order. So
the two bisections count the rows below a point, or up to it, and both are tests of single rows.
-/

namespace OrderedRelations

/-- Turning a number round turns its place round. -/
theorem Binary64.place?_neg (x : Binary64) :
    x.neg.place? = x.place?.map fun p => (-p.1, -p.2) := by
  cases x with
  | number q => by_cases hq : q = 0 <;> simp [neg, place?, hq]
  | infinity negative => cases negative <;> simp [neg, place?]
  | _ => simp [neg, place?, zero]

namespace Quantity

variable {a b t : Quantity}

theorem place?_neg (a : Quantity) : a.neg.place? = a.place?.map fun p => (-p.1, -p.2) := by
  cases a with
  | whole n => simp [neg, place?, Rat.mkRat_eq_div]
  | real x => exact x.place?_neg

theorem less_iff : a.less b = true ↔
    ∃ p q, a.place? = some p ∧ b.place? = some q ∧ toLex p < toLex q := by
  have hplaces : ∀ p q : ℤ × ℚ, placeLess p q = true ↔ toLex p < toLex q := by
    intro p q
    simp [placeLess, Prod.Lex.toLex_lt_toLex]
  unfold less
  split
  · simp [place?, Prod.Lex.toLex_lt_toLex, Rat.mkRat_eq_div]
  · split
    · simp [*]
    · rename_i hnone
      constructor
      · intro h
        cases h
      · rintro ⟨p, q, hp, hq, -⟩
        exact (hnone p q hp hq).elim

/-- Comparison sees places alone. -/
theorem less_congr {a' b' : Quantity} (ha : a.place? = a'.place?) (hb : b.place? = b'.place?) :
    a.less b = a'.less b' := by
  rw [Bool.eq_iff_iff, less_iff, less_iff, ha, hb]

theorem place?_whole (n : ℤ) : (whole n).place? = some (0, (n : ℚ)) := by
  simp [place?, Rat.mkRat_eq_div]

/-- Quantities that stand for rationals are compared as these. -/
theorem less_of_place {p q : ℚ} (hp : a.place? = some (0, p)) (hq : b.place? = some (0, q)) :
    a.less b = decide (p < q) := by
  rw [Bool.eq_iff_iff, less_iff, decide_eq_true_iff]
  simp [hp, hq, Prod.Lex.toLex_lt_toLex]

theorem atMost_iff : a.atMost b = true ↔
    ∃ p q, a.place? = some p ∧ b.place? = some q ∧ toLex p ≤ toLex q := by
  rw [atMost, Bool.or_eq_true, less_iff, same_iff]
  constructor
  · rintro (⟨p, q, hp, hq, hlt⟩ | ⟨p, hp, hq⟩)
    · exact ⟨p, q, hp, hq, hlt.le⟩
    · exact ⟨p, p, hp, hq, le_refl _⟩
  · rintro ⟨p, q, hp, hq, hle⟩
    rcases hle.lt_or_eq with hlt | heq
    · exact .inl ⟨p, q, hp, hq, hlt⟩
    · cases toLex.injective heq
      exact .inr ⟨p, hp, hq⟩

theorem less_of_atMost_of_less (hab : a.atMost b = true) (hbt : b.less t = true) :
    a.less t = true := by
  obtain ⟨p, q, hp, hq, hle⟩ := atMost_iff.mp hab
  obtain ⟨q', s, hq', hs, hlt⟩ := less_iff.mp hbt
  cases hq.symm.trans hq'
  exact less_iff.mpr ⟨p, s, hp, hs, hle.trans_lt hlt⟩

theorem less_of_less_of_atMost (hta : t.less a = true) (hab : a.atMost b = true) :
    t.less b = true := by
  obtain ⟨s, p, hs, hp, hlt⟩ := less_iff.mp hta
  obtain ⟨p', q, hp', hq, hle⟩ := atMost_iff.mp hab
  cases hp.symm.trans hp'
  exact less_iff.mpr ⟨s, q, hs, hq, hlt.trans_le hle⟩

theorem neg_less_neg (a b : Quantity) : a.neg.less b.neg = b.less a := by
  rw [Bool.eq_iff_iff, less_iff, less_iff]
  simp only [place?_neg, Option.map_eq_some_iff]
  constructor
  · rintro ⟨_, _, ⟨p, hp, rfl⟩, ⟨q, hq, rfl⟩, hlt⟩
    exact ⟨q, p, hq, hp, by simpa [Prod.Lex.toLex_lt_toLex, eq_comm] using hlt⟩
  · rintro ⟨q, p, hq, hp, hlt⟩
    exact ⟨_, _, ⟨p, hp, rfl⟩, ⟨q, hq, rfl⟩,
      by simpa [Prod.Lex.toLex_lt_toLex, eq_comm] using hlt⟩

/-- Of two quantities that have a place, one is at most the other unless this one is less. -/
theorem atMost_of_not_less {p q : ℤ × ℚ} (hp : a.place? = some p) (hq : b.place? = some q)
    (h : b.less a = false) : a.atMost b = true := by
  refine atMost_iff.mpr ⟨p, q, hp, hq, not_lt.mp fun hlt => ?_⟩
  rw [less_iff.mpr ⟨q, p, hq, hp, hlt⟩] at h
  cases h

end Quantity

namespace Value

/-- The rank of the zero of a number line. -/
def origin (type : ColumnType) : ℚ :=
  if type = .datetime then (Date.epochOrdinal : ℤ) * dayMicroseconds else 0

/-- The rank of a value is the place of its coordinate, counted from the zero of the number line. -/
theorem rank_eq_place {type : ColumnType} (hmeasured : type.isMeasurable = true) {v v' : Value}
    (hv : v.conforms type = true) (hnull : v.isNull = false) (hv' : v.comparable? = some v')
    (hnumber : v.isNaN = false) {a : Quantity} (ha : v.quantityAt type = .ok a) :
    ∃ p, a.place? = some p ∧ v'.rank = numberRank (p.1, p.2 + origin type) := by
  by_cases htype : type.Whole
  · rw [quantityAt_eq htype hv hnull (by simp [hv'])] at ha
    cases ha
    refine ⟨_, rfl, (rank_eq_point htype hv hnull hv').trans ?_⟩
    rw [origin]
    split <;> simp [Rat.mkRat_eq_div]
  · obtain rfl : type = .float := by
      cases type <;> simp [ColumnType.Whole, ColumnType.isMeasurable] at htype hmeasured ⊢
    cases alike_of_conforms hv hv hnull hnull with
    | float x _ =>
      cases ha
      cases hv'
      obtain ⟨p, hp⟩ := exists_place_of_isNaN hnumber
      exact ⟨p, hp, by simp [rank, hp, origin]⟩
    | _ => simp [conforms] at hv

/-- Coordinates are in the order of ranks. -/
theorem less_eq_rank_lt {type : ColumnType} (hmeasured : type.isMeasurable = true)
    {v w v' w' : Value} (hv : v.conforms type = true) (hw : w.conforms type = true)
    (hnv : v.isNull = false) (hnw : w.isNull = false) (hv' : v.comparable? = some v')
    (hw' : w.comparable? = some w') (hav : v.isNaN = false) (haw : w.isNaN = false)
    {a b : Quantity} (ha : v.quantityAt type = .ok a) (hb : w.quantityAt type = .ok b) :
    a.less b = decide (v'.rank < w'.rank) := by
  obtain ⟨p, hp, hrank⟩ := rank_eq_place hmeasured hv hnv hv' hav ha
  obtain ⟨q, hq, hrank'⟩ := rank_eq_place hmeasured hw hnw hw' haw hb
  rw [Bool.eq_iff_iff, decide_eq_true_iff, Quantity.less_iff, hrank, hrank', numberRank_lt]
  simp [hp, hq, Prod.Lex.toLex_lt_toLex]

end Value

namespace OrderKey

/-- The coordinate of a value, negated under a descending key; zero stands in for none. -/
def coordinateOf (k : OrderKey) (type : ColumnType) (v : Value) : Quantity :=
  match v.quantityAt type with
  | .ok c => if k.descending then c.neg else c
  | .error _ => .whole 0

/-- Whether a value stands in front of a cut: its coordinate passes a test, and nulls stand at their
end of the order. -/
def inFront (k : OrderKey) (type : ColumnType) (test : Quantity → Bool) (v : Value) : Bool :=
  if v.isNull then k.nullsFirst else test (k.coordinateOf type v)

end OrderKey

namespace FrameExtent

/-- The values of a measured column that a key has put in order, ties in any order. -/
structure Measured (k : OrderKey) (type : ColumnType) (values : List Value) : Prop where
  measurable : type.isMeasurable = true
  typed : ∀ v ∈ values, v.conforms type = true
  number : ∀ v ∈ values, v.isNaN = false
  comparable : ∀ v ∈ values, v.comparable?.isSome = true
  sorted : values.Pairwise fun v w =>
    k.before (w.comparable?.getD .null) (v.comparable?.getD .null) = false

variable {k : OrderKey} {type : ColumnType} {values : List Value}

theorem Measured.sortable (h : Measured k type values) {v : Value} (hv : v ∈ values) :
    ∃ v', v.comparable? = some v' ∧ Value.Sortable type v' := by
  obtain ⟨v', hv'⟩ := Option.isSome_iff_exists.mp (h.comparable v hv)
  exact ⟨v', hv', Value.conforms_of_comparable? hv' (h.typed v hv),
    Value.isNaive_of_comparable? hv', (Value.isNaN_of_comparable? hv').trans (h.number v hv)⟩

theorem Measured.levels_sorted (h : Measured k type values) :
    values.Pairwise fun v w => k.level v ≤ k.level w := by
  refine h.sorted.imp_of_mem fun {v w} hv hw hwv => ?_
  obtain ⟨v', hv', hsv⟩ := h.sortable hv
  obtain ⟨w', hw', hsw⟩ := h.sortable hw
  rw [hv', hw', Option.getD_some, Option.getD_some, k.before_eq hsw hsv,
    k.level_of_comparable? hv', k.level_of_comparable? hw', Bool.or_eq_false_iff] at hwv
  simpa using hwv.1

/-- Whole coordinates are signed points. -/
theorem Measured.coordinateOf_eq (h : Measured k type values) (htype : type.Whole) {v : Value}
    (hv : v ∈ values) (hnull : v.isNull = false) : k.coordinateOf type v = .whole (k.signed v) := by
  have hquantity := Value.quantityAt_eq htype (h.typed v hv) hnull (h.comparable v hv)
  cases hd : k.descending <;>
    simp [OrderKey.coordinateOf, OrderKey.signed, hquantity, hd, Quantity.neg]

theorem Measured.place_coordinateOf (h : Measured k type values) {v : Value} (hv : v ∈ values)
    (hnull : v.isNull = false) : ∃ p, (k.coordinateOf type v).place? = some p := by
  obtain ⟨v', hv', -⟩ := h.sortable hv
  obtain ⟨a, ha⟩ := Value.exists_quantityAt h.measurable (h.typed v hv) hnull (h.comparable v hv)
  obtain ⟨p, hp, -⟩ := Value.rank_eq_place h.measurable (h.typed v hv) hnull hv' (h.number v hv) ha
  simp only [OrderKey.coordinateOf, ha]
  split
  · exact ⟨_, by rw [Quantity.place?_neg, hp]; rfl⟩
  · exact ⟨p, hp⟩

/-- A key orders values as their coordinates are ordered. -/
theorem Measured.less_coordinateOf (h : Measured k type values) {v w : Value} (hv : v ∈ values)
    (hw : w ∈ values) (hnv : v.isNull = false) (hnw : w.isNull = false) :
    (k.coordinateOf type v).less (k.coordinateOf type w) =
      k.before (v.comparable?.getD .null) (w.comparable?.getD .null) := by
  obtain ⟨v', hv', hsv⟩ := h.sortable hv
  obtain ⟨w', hw', hsw⟩ := h.sortable hw
  have hnv' := (Value.isNull_of_comparable? hv').trans hnv
  have hnw' := (Value.isNull_of_comparable? hw').trans hnw
  obtain ⟨a, ha⟩ := Value.exists_quantityAt h.measurable (h.typed v hv) hnv (h.comparable v hv)
  obtain ⟨b, hb⟩ := Value.exists_quantityAt h.measurable (h.typed w hw) hnw (h.comparable w hw)
  have hless : ∀ {x y x' y' : Value} {c d : Quantity}, x ∈ values → y ∈ values → x.isNull = false →
      y.isNull = false → x.comparable? = some x' → y.comparable? = some y' →
      x.quantityAt type = .ok c → y.quantityAt type = .ok d →
        c.less d = decide (x'.rank < y'.rank) :=
    fun hx hy hnx hny hx' hy' => Value.less_eq_rank_lt h.measurable (h.typed _ hx) (h.typed _ hy) hnx
      hny hx' hy' (h.number _ hx) (h.number _ hy)
  simp only [OrderKey.coordinateOf, ha, hb, hv', hw', Option.getD_some,
    k.before_of_not_null hnv' hnw', hsv.less?_eq hsw hnv' hnw', hsw.less?_eq hsv hnw' hnv']
  cases k.descending with
  | false => exact hless hv hw hnv hnw hv' hw' ha hb
  | true =>
    simp only [if_true, Quantity.neg_less_neg]
    exact hless hw hv hnw hnv hw' hv' hb ha

/-- The coordinates of values in order ascend. -/
theorem Measured.atMost_of_not_before (h : Measured k type values) {v w : Value} (hv : v ∈ values)
    (hw : w ∈ values) (hnv : v.isNull = false) (hnw : w.isNull = false)
    (hwv : k.before (w.comparable?.getD .null) (v.comparable?.getD .null) = false) :
    (k.coordinateOf type v).atMost (k.coordinateOf type w) = true := by
  obtain ⟨p, hp⟩ := h.place_coordinateOf hv hnv
  obtain ⟨q, hq⟩ := h.place_coordinateOf hw hnw
  exact Quantity.atMost_of_not_less hp hq ((h.less_coordinateOf hw hv hnw hnv).trans hwv)

theorem Measured.signedCoordinates_eq (h : Measured k type values) :
    signedCoordinates type k.descending values =
      .ok ((settled values).map (k.coordinateOf type)) := by
  apply Result.mapM_eq_map
  intro v hv
  obtain ⟨hv, hnull⟩ := List.mem_filter.mp hv
  obtain ⟨c, hc⟩ := Value.exists_quantityAt h.measurable (h.typed v hv) (by simpa using hnull)
    (h.comparable v hv)
  simp [OrderKey.coordinateOf, hc]

/-- Bisection counts the elements that pass a test, where they come first. -/
theorem partitionPoint_eq_countP {α : Type} {test : α → Bool} {xs : List α} (h : Leads test xs) :
    partitionPoint test xs.toArray 0 xs.toArray.size = xs.countP test := by
  have hfirst : ∀ {i j : ℕ} {a b : α}, i ≤ j → xs.toArray[i]? = some a →
      xs.toArray[j]? = some b → test b = true → test a = true := by
    intro i j a b hij ha hb hpass
    simp only [List.getElem?_toArray] at ha hb
    obtain ⟨hi, rfl⟩ := List.getElem?_eq_some_iff.mp ha
    obtain ⟨hj, rfl⟩ := List.getElem?_eq_some_iff.mp hb
    rcases Nat.eq_or_lt_of_le hij with rfl | hlt
    · exact hpass
    · exact List.pairwise_iff_getElem.mp h i j hi hj hlt hpass
  symm
  refine countP_of_cut ?_ fun {i a} ha => ?_
  · simpa using (partitionPoint_bounds test xs.toArray (Nat.zero_le xs.toArray.size)).2
  · have hi : i < xs.toArray.size := by simpa using (List.getElem?_eq_some_iff.mp ha).1
    exact lt_partitionPoint_iff (Nat.le_refl _) hfirst (Nat.zero_le i) hi (by simpa using ha)

section Tests

/-- A test that smaller coordinates pass first. -/
def Descends (test : Quantity → Bool) : Prop :=
  ∀ {a b : Quantity}, a.atMost b = true → test b = true → test a = true

theorem descends_less (t : Quantity) : Descends fun c => c.less t :=
  fun hab hb => Quantity.less_of_atMost_of_less hab hb

theorem descends_not_less (t : Quantity) : Descends fun c => !t.less c := by
  intro a b hab hb
  rw [Bool.not_eq_true'] at hb ⊢
  by_contra ha
  rw [Quantity.less_of_less_of_atMost (by simpa using ha) hab] at hb
  cases hb

variable {test : Quantity → Bool} (htest : Descends test)
include htest

theorem Measured.leads_coordinates (h : Measured k type values) :
    Leads test ((settled values).map (k.coordinateOf type)) := by
  refine List.pairwise_map.mpr ((h.sorted.filter _).imp_of_mem ?_)
  intro v w hv hw hwv
  obtain ⟨hv, hnv⟩ := List.mem_filter.mp hv
  obtain ⟨hw, hnw⟩ := List.mem_filter.mp hw
  exact htest (h.atMost_of_not_before hv hw (by simpa using hnv) (by simpa using hnw) hwv)

theorem Measured.leads_inFront (h : Measured k type values) :
    Leads (k.inFront type test) values := by
  refine (h.sorted.and h.levels_sorted).imp_of_mem ?_
  intro v w hv hw hvw hpass
  obtain ⟨hwv, hlevels⟩ := hvw
  unfold OrderKey.inFront at hpass ⊢
  cases hnv : v.isNull with
  | true =>
    cases hnw : w.isNull with
    | true => simpa [hnw] using hpass
    | false =>
      rw [k.level_of_null hnv, k.level_of_not_null hnw] at hlevels
      split at hlevels
      · simpa using ‹k.nullsFirst = true›
      · omega
  | false =>
    cases hnw : w.isNull with
    | true =>
      have hfirst : k.nullsFirst = true := by simpa [hnw] using hpass
      rw [k.level_of_null hnw, k.level_of_not_null hnv, if_pos hfirst] at hlevels
      omega
    | false =>
      simp only [hnw, Bool.false_eq_true, if_false] at hpass ⊢
      exact htest (h.atMost_of_not_before hv hw hnv hnw hwv) hpass

/-- Where some value is not null, a bisection behind the nulls in front counts the values in front of
its cut. -/
theorem Measured.front_add_partitionPoint (h : Measured k type values)
    (hsome : ∃ v ∈ values, v.isNull = false) :
    front values + partitionPoint test ((settled values).map (k.coordinateOf type)).toArray 0
        ((settled values).map (k.coordinateOf type)).toArray.size =
      values.countP (k.inFront type test) := by
  have hvalues : (settled values).countP (k.inFront type test) =
      ((settled values).map (k.coordinateOf type)).countP test := by
    rw [List.countP_map]
    refine List.countP_congr fun v hv => ?_
    have hnull : v.isNull = false := by simpa using (List.mem_filter.mp hv).2
    simp [OrderKey.inFront, hnull]
  rw [partitionPoint_eq_countP (h.leads_coordinates htest), ← hvalues]
  cases hn : k.nullsFirst with
  | true =>
    have hnulls : (values.takeWhile Value.isNull).countP (k.inFront type test) =
        (values.takeWhile Value.isNull).length :=
      List.countP_eq_length.mpr fun v hv => by
        simp [OrderKey.inFront, List.mem_takeWhile_imp hv, hn]
    conv_rhs => rw [eq_append_settled hn h.levels_sorted]
    rw [List.countP_append, hnulls, front]
  | false =>
    have hnulls : (values.filter Value.isNull).countP (k.inFront type test) = 0 :=
      List.countP_eq_zero.mpr fun v hv => by
        simp [OrderKey.inFront, (List.mem_filter.mp hv).2, hn]
    conv_rhs => rw [eq_settled_append hn h.levels_sorted]
    rw [List.countP_append, hnulls, front_eq_zero hn h.levels_sorted hsome]
    omega

end Tests
end FrameExtent
end OrderedRelations
