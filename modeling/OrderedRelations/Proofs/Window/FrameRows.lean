import OrderedRelations.Proofs.Window.OffsetCuts
import OrderedRelations.Proofs.Window.PartitionResults
import OrderedRelations.Proofs.Window.PeerCounts

/-!
# Frames as sets of rows

A frame that keeps ties together is given by two tests of single rows: which rows are ahead of it,
and which are not behind it. The tests read the row of the frame and the row tested alone, so it does
not matter to them how ties are arranged.
-/

namespace OrderedRelations

/-- A frame that never parts ties: it reaches over values, or over the whole partition. -/
def FrameSpec.KeepsTies (frame : FrameSpec) : Prop :=
  frame.unit = .range ∨ frame.start = .unboundedPreceding ∧ frame.stop = .unboundedFollowing

instance (frame : FrameSpec) : Decidable frame.KeepsTies :=
  inferInstanceAs (Decidable (_ ∨ _ ∧ _))

/-- The rows ahead of a frame, and the rows that are not behind it. -/
structure FrameTests where
  ahead : ℕ → Bool
  through : ℕ → Bool

namespace FrameTests

/-- The frame among rows in order. -/
def span (tests : FrameTests) (members : List ℕ) : Span :=
  ⟨members.countP tests.ahead, members.countP tests.through⟩

/-- The rows of the frame. -/
def rows (tests : FrameTests) (members : List ℕ) : List ℕ :=
  members.filter fun j => !tests.ahead j && tests.through j

end FrameTests

namespace Relation

open FrameExtent (target)

/-- The rows in front of the point that an offset bound reaches from a row; other bounds, and rows
without a value, keep the test of their peers. -/
def boundTest (r : Relation) (k : OrderKey) (type : ColumnType)
    (passes : Quantity → Quantity → Bool) (peers : ℕ → Bool) (bound : FrameBound) (i : ℕ) :
    Result (ℕ → Bool) :=
  match bound, (r.cell k.column i).isNull with
  | .preceding offset, false =>
    (target type (k.coordinateOf type (r.cell k.column i)) true offset).map fun t j =>
      k.inFront type (passes t) (r.cell k.column j)
  | .following offset, false =>
    (target type (k.coordinateOf type (r.cell k.column i)) false offset).map fun t j =>
      k.inFront type (passes t) (r.cell k.column j)
  | _, _ => .ok peers

/-- The frame of a row from its peers. -/
def peerTests (r : Relation) (orderBy : List OrderKey) (frame : FrameSpec) (i : ℕ) : FrameTests :=
  ⟨fun j => if frame.start = .unboundedPreceding then false else r.keysBefore orderBy j i,
    fun j => if frame.stop = .unboundedFollowing then true else !r.keysBefore orderBy i j⟩

/-- The frame of a row. -/
def frameTests (r : Relation) (orderBy : List OrderKey) (frame : FrameSpec) (i : ℕ) :
    Result FrameTests :=
  match frame.unit, frame.hasOffsets, orderBy with
  | .range, true, k :: _ => do
    let type ← r.schema.typeOf k.column
    let ahead ← r.boundTest k type (fun t c => c.less t) (r.peerTests [k] frame i).ahead frame.start i
    let through ←
      r.boundTest k type (fun t c => !t.less c) (r.peerTests [k] frame i).through frame.stop i
    pure ⟨ahead, through⟩
  | _, _, _ => .ok (r.peerTests orderBy frame i)

variable {r : Relation} {orderBy : List OrderKey} {k : OrderKey} {type : ColumnType}
  {members : List ℕ} {frame : FrameSpec}

theorem span_peerTests (r : Relation) (orderBy : List OrderKey) (frame : FrameSpec)
    (members : List ℕ) (i : ℕ) : (r.peerTests orderBy frame i).span members =
      FrameExtent.peerSpan members.length frame (r.peersAmong orderBy members i) := by
  by_cases hstart : frame.start = .unboundedPreceding <;>
    by_cases hstop : frame.stop = .unboundedFollowing <;>
    simp [FrameTests.span, peerTests, FrameExtent.peerSpan, peersAmong, hstart, hstop]

/-- Peers, and what lies ahead of them, come first in order. -/
theorem leads_peerTests (h : r.SortsBy orderBy) (hordered : r.InOrder orderBy members)
    (frame : FrameSpec) (i : ℕ) : Leads (r.peerTests orderBy frame i).ahead members ∧
      Leads (r.peerTests orderBy frame i).through members := by
  have hrank := ranking_keysBefore h
  constructor
  · refine (hrank.leads_before hordered i).imp fun hpass => ?_
    simp only [peerTests]
    split
    · exact id
    · exact hpass
  · refine (hrank.leads_not_before hordered i).imp fun hpass => ?_
    simp only [peerTests]
    split
    · exact id
    · exact hpass

/-- Rows in order have the values of a measured column in order. -/
theorem InOrder.measured (hr : r.WellFormed) (hnan : r.NaNFree [k]) (hin : ∀ i ∈ members, i < r.size)
    (hc : ∀ i ∈ members, (r.cell k.column i).comparable?.isSome = true)
    (htype : r.schema.typeOf k.column = .ok type) (hmeasured : type.isMeasurable = true)
    (hordered : r.InOrder [k] members) :
    FrameExtent.Measured k type (members.map (r.cell k.column)) := by
  refine ⟨hmeasured, hr.conforms_cells hin htype, ?_, List.forall_mem_map.mpr hc, ?_⟩
  · exact List.forall_mem_map.mpr fun i hi => hnan k (by simp) i (hin i hi)
  · rw [List.pairwise_map]
    exact hordered.imp fun hji => by simpa [keysBefore, sortCell] using hji

theorem keysBefore_singleton (r : Relation) (k : OrderKey) (i j : ℕ) :
    r.keysBefore [k] i j = k.before (r.sortCell k.column i) (r.sortCell k.column j) := by
  simp [keysBefore]

end Relation

namespace FrameExtent

variable {r : Relation} {orderBy : List OrderKey} {k : OrderKey} {type : ColumnType}
  {members : List ℕ} {frame : FrameSpec} {values : List Value} {peers : List Span}

/-- Rows with values are in the order of their coordinates. -/
theorem Measured.less_eq_keysBefore (h : Measured k type (members.map (r.cell k.column))) {i j : ℕ}
    (hi : i ∈ members) (hj : j ∈ members) (hni : (r.cell k.column i).isNull = false)
    (hnj : (r.cell k.column j).isNull = false) :
    (k.coordinateOf type (r.cell k.column i)).less (k.coordinateOf type (r.cell k.column j)) =
      r.keysBefore [k] i j :=
  (h.less_coordinateOf (List.mem_map_of_mem hi) (List.mem_map_of_mem hj) hni hnj).trans
    (Relation.keysBefore_singleton r k i j).symm

/-- What the spans of one partition are computed from, whatever its order column measures. -/
def measuredView (k : OrderKey) (type : ColumnType) (values : List Value) (peers : List Span) :
    RangeView :=
  ⟨type, values, front values, ((settled values).map (k.coordinateOf type)).toArray, peers⟩

@[simp] theorem measuredView_type :
    (measuredView k type values peers).type = type := rfl

@[simp] theorem measuredView_base :
    (measuredView k type values peers).base = front values := rfl

@[simp] theorem measuredView_values :
    (measuredView k type values peers).values = values := rfl

theorem Measured.coordinate?_eq (h : Measured k type values) {i : ℕ} {v : Value}
    (hv : values[i]? = some v) (hnull : v.isNull = false) :
    (measuredView k type values peers).coordinate? i = some (k.coordinateOf type v) := by
  have hbase : (measuredView k type values peers).base = front values := rfl
  obtain ⟨c, hc, hplace⟩ := exists_place hbase h.levels_sorted hv hnull
  rw [measuredView_values] at hc
  rw [hplace]
  simp [measuredView, hc]

/-- Whatever point an offset reaches, its bisection counts the rows in front of it. -/
theorem Measured.count_eq (h : Measured k type (members.map (r.cell k.column)))
    (hsome : ∃ v ∈ members.map (r.cell k.column), v.isNull = false)
    {passes : Quantity → Quantity → Bool} (hpasses : ∀ t, Descends (passes t))
    (point : Result Quantity) :
    (point.map fun t => ((front (members.map (r.cell k.column)) + partitionPoint (passes t)
      (measuredView k type (members.map (r.cell k.column)) peers).coordinates 0
      (measuredView k type (members.map (r.cell k.column)) peers).coordinates.size : ℕ) : ℤ)) =
    (point.map fun t j => k.inFront type (passes t) (r.cell k.column j)).map
      fun test => (members.countP test : ℤ) := by
  cases point with
  | error e => rfl
  | ok t =>
    have hcut := h.front_add_partitionPoint (hpasses t) hsome
    rw [List.countP_map] at hcut
    exact congrArg (fun n : ℕ => Except.ok (n : ℤ)) hcut

/-- A frame starts behind the rows that are ahead of it. -/
theorem first_eq_count (h : Measured k type (members.map (r.cell k.column))) {i n : ℕ}
    (hi : members[n]? = some i) :
    (measuredView k type (members.map (r.cell k.column)) peers).first n
        (r.peersAmong [k] members i) frame.start =
      (r.boundTest k type (fun t c => c.less t) (r.peerTests [k] frame i).ahead frame.start i).map
        fun test => (members.countP test : ℤ) := by
  have hv : (members.map (r.cell k.column))[n]? = some (r.cell k.column i) := by simp [hi]
  cases hnull : (r.cell k.column i).isNull with
  | true =>
    have hcoord : (measuredView k type (members.map (r.cell k.column)) peers).coordinate? n = none :=
      coordinate?_eq_none hv hnull
    cases hb : frame.start <;>
      simp [RangeView.first, Relation.boundTest, Relation.peerTests, Relation.peersAmong, hnull,
        hcoord, hb]
  | false =>
    have hcoord : (measuredView k type (members.map (r.cell k.column)) peers).coordinate? n =
        some (k.coordinateOf type (r.cell k.column i)) := h.coordinate?_eq hv hnull
    have hsome : ∃ v ∈ members.map (r.cell k.column), v.isNull = false :=
      ⟨_, List.mem_of_getElem? hv, hnull⟩
    cases hb : frame.start with
    | preceding o =>
      simpa only [RangeView.first, Relation.boundTest, hnull, hcoord, measuredView_type,
        measuredView_base, countBelow] using h.count_eq hsome descends_less _
    | following o =>
      simpa only [RangeView.first, Relation.boundTest, hnull, hcoord, measuredView_type,
        measuredView_base, countBelow] using h.count_eq hsome descends_less _
    | _ => simp [RangeView.first, Relation.boundTest, Relation.peerTests, Relation.peersAmong, hb]

/-- A frame stops behind the rows that are not behind it. -/
theorem stop_eq_count (h : Measured k type (members.map (r.cell k.column))) {i n : ℕ}
    (hi : members[n]? = some i) :
    (measuredView k type (members.map (r.cell k.column)) peers).stop n
        (r.peersAmong [k] members i) frame.stop =
      (r.boundTest k type (fun t c => !t.less c) (r.peerTests [k] frame i).through frame.stop i).map
        fun test => (members.countP test : ℤ) := by
  have hv : (members.map (r.cell k.column))[n]? = some (r.cell k.column i) := by simp [hi]
  cases hnull : (r.cell k.column i).isNull with
  | true =>
    have hcoord : (measuredView k type (members.map (r.cell k.column)) peers).coordinate? n = none :=
      coordinate?_eq_none hv hnull
    cases hb : frame.stop <;>
      simp [RangeView.stop, Relation.boundTest, Relation.peerTests, Relation.peersAmong, hnull,
        hcoord, hb]
  | false =>
    have hcoord : (measuredView k type (members.map (r.cell k.column)) peers).coordinate? n =
        some (k.coordinateOf type (r.cell k.column i)) := h.coordinate?_eq hv hnull
    have hsome : ∃ v ∈ members.map (r.cell k.column), v.isNull = false :=
      ⟨_, List.mem_of_getElem? hv, hnull⟩
    cases hb : frame.stop with
    | preceding o =>
      simpa only [RangeView.stop, Relation.boundTest, hnull, hcoord, measuredView_type,
        measuredView_base, countThrough] using h.count_eq hsome descends_not_less _
    | following o =>
      simpa only [RangeView.stop, Relation.boundTest, hnull, hcoord, measuredView_type,
        measuredView_base, countThrough] using h.count_eq hsome descends_not_less _
    | _ => simp [RangeView.stop, Relation.boundTest, Relation.peerTests, Relation.peersAmong, hb]

theorem boundTest_of_plain {passes : Quantity → Quantity → Bool} {peers : ℕ → Bool}
    {bound : FrameBound} (h : bound.offset? = none) (i : ℕ) :
    r.boundTest k type passes peers bound i = .ok peers := by
  cases bound with
  | preceding o => cases h
  | following o => cases h
  | _ => simp [Relation.boundTest]

/-- The frame of a row is made of the tests of its two bounds. -/
theorem frameTests_eq (htype : r.schema.typeOf k.column = .ok type) (hunit : frame.unit = .range)
    (i : ℕ) : r.frameTests [k] frame i = (do
      let ahead ←
        r.boundTest k type (fun t c => c.less t) (r.peerTests [k] frame i).ahead frame.start i
      let through ←
        r.boundTest k type (fun t c => !t.less c) (r.peerTests [k] frame i).through frame.stop i
      pure ⟨ahead, through⟩) := by
  cases hoffsets : frame.hasOffsets with
  | true => simp only [Relation.frameTests, hunit, hoffsets, htype, Result.ok_bind]
  | false =>
    obtain ⟨hstart, hstop⟩ : frame.start.offset? = none ∧ frame.stop.offset? = none := by
      simpa [FrameSpec.hasOffsets] using hoffsets
    rw [boundTest_of_plain hstart, boundTest_of_plain hstop]
    simp only [Relation.frameTests, hunit, hoffsets]
    rfl

/-- The span of a frame counts what its two tests let in. -/
theorem span_frameTests (htype : r.schema.typeOf k.column = .ok type) (hunit : frame.unit = .range)
    (members : List ℕ) (i : ℕ) :
    (r.frameTests [k] frame i).map (fun tests => tests.span members) = (do
      let first ← (r.boundTest k type (fun t c => c.less t) (r.peerTests [k] frame i).ahead
        frame.start i).map fun test => (members.countP test : ℤ)
      let stop ← (r.boundTest k type (fun t c => !t.less c) (r.peerTests [k] frame i).through
        frame.stop i).map fun test => (members.countP test : ℤ)
      pure ⟨first, stop⟩) := by
  rw [frameTests_eq htype hunit]
  cases r.boundTest k type (fun t c => c.less t) (r.peerTests [k] frame i).ahead frame.start i with
  | error e => rfl
  | ok ahead =>
    cases r.boundTest k type (fun t c => !t.less c) (r.peerTests [k] frame i).through
      frame.stop i with
    | error e => rfl
    | ok through => rfl

theorem frameTests_eq_peerTests (hplain : frame.unit = .range → frame.hasOffsets = false) (i : ℕ) :
    r.frameTests orderBy frame i = .ok (r.peerTests orderBy frame i) := by
  unfold Relation.frameTests
  split
  · rename_i hunit hoffsets
    rw [hplain hunit] at hoffsets
    cases hoffsets
  · rfl

theorem offsetSpans_eq_tests (h : Measured k type (members.map (r.cell k.column)))
    (htype : r.schema.typeOf k.column = .ok type) (hunit : frame.unit = .range) :
    offsetSpans k type (members.map (r.cell k.column)) (members.map (r.peersAmong [k] members))
        frame =
      members.mapM fun i => (r.frameTests [k] frame i).map fun tests => tests.span members := by
  rw [offsetSpans, h.signedCoordinates_eq, Result.ok_bind]
  refine Result.mapM_congr (List.forall₂_iff_get.mpr ⟨by simp, fun n hn hn' => ?_⟩)
  have hi : members[n]? = some members[n] := List.getElem?_eq_getElem hn'
  have hspan : (measuredView k type (members.map (r.cell k.column))
      (members.map (r.peersAmong [k] members))).span frame n (r.peersAmong [k] members members[n]) =
        (r.frameTests [k] frame members[n]).map fun tests => tests.span members := by
    rw [RangeView.span, first_eq_count h hi, stop_eq_count h hi, span_frameTests htype hunit]
  simpa [measuredView, front] using hspan

/-- A frame that reaches over the whole partition has one span. -/
theorem rowSpans_whole (hstart : frame.start = .unboundedPreceding)
    (hstop : frame.stop = .unboundedFollowing) (members : List ℕ) :
    rowSpans members.length frame =
      members.map fun i => (r.peerTests orderBy frame i).span members := by
  have hrow : rowSpan members.length frame = fun _ => ⟨0, members.length⟩ := by
    funext i
    simp [rowSpan, clamp, firstRow, stopRow, hstart, hstop]
  have hpeer : (fun i => (r.peerTests orderBy frame i).span members) =
      fun _ => ⟨0, members.length⟩ := by
    funext i
    simp [Relation.span_peerTests, peerSpan, hstart, hstop]
  rw [rowSpans, hrow, hpeer, List.map_const', List.map_const', List.length_range]

section Ordered

variable (hr : r.WellFormed) (hnan : r.NaNFree orderBy) (ho : ∀ k ∈ orderBy, k.column ∈ r.names)
  (hin : ∀ i ∈ members, i < r.size)
  (hc : ∀ k ∈ orderBy, ∀ i ∈ members, (r.cell k.column i).comparable?.isSome = true)
  (hordered : r.InOrder orderBy members) (hmeasures : Window.MeasuresOrder r.schema orderBy frame)
include hr hnan ho hin hc hordered hmeasures

/-- The frames over rows in order are those of their tests, one row at a time. -/
theorem spans_eq_tests (hties : frame.KeepsTies) :
    spans r.schema orderBy (Arrangement.rowsAt r members) frame =
      members.mapM fun i => (r.frameTests orderBy frame i).map fun tests => tests.span members := by
  have hsorts := hr.sortsBy ho hnan
  by_cases hoffsets : frame.unit = .range ∧ frame.hasOffsets = true
  · obtain ⟨k, type, rfl, htype, hmeasured, -⟩ := hmeasures hoffsets.1 hoffsets.2
    have hc : ∀ i ∈ members, (r.cell k.column i).comparable?.isSome = true := hc k (by simp)
    have hpeers : Peers.spans (members.map fun i => [r.sortCell k.column i]) =
        members.map (r.peersAmong [k] members) := hordered.peers_eq hsorts
    rw [spans_eq_offsetSpans hin (Schema.mem_names_of_typeOf htype) htype hc hoffsets.1 hoffsets.2,
      hpeers]
    exact offsetSpans_eq_tests (hordered.measured hr hnan hin hc htype hmeasured) htype hoffsets.1
  · have hplain : frame.unit = .range → frame.hasOffsets = false := by
      intro hunit
      simpa [hunit] using hoffsets
    have hlength : (Arrangement.rowsAt r members).length = members.length := by
      rw [rowsAt_eq_map hin, List.length_map]
    have htests : (members.mapM fun i => (r.frameTests orderBy frame i).map fun tests =>
        tests.span members) = .ok (members.map fun i => (r.peerTests orderBy frame i).span members) :=
      Result.mapM_eq_map fun i _ => by rw [frameTests_eq_peerTests hplain, Result.map_ok]
    rw [htests]
    cases hunit : frame.unit with
    | rows =>
      obtain ⟨hstart, hstop⟩ : frame.start = .unboundedPreceding ∧ frame.stop = .unboundedFollowing :=
        hties.resolve_left (by simp [hunit])
      rw [← rowSpans_whole hstart hstop, ← hlength]
      simp only [spans, hunit]
    | range =>
      simp only [spans, hunit, keys_eq hin ho, bounds_eq hc, hordered.peers_eq hsorts, hlength,
        hplain hunit, Result.ok_bind, List.map_map]
      exact congrArg Except.ok (List.map_congr_left fun i _ =>
        (Relation.span_peerTests r orderBy frame members i).symm)

/-- The rows ahead of a frame come first in order, and so do those not behind it. -/
theorem leads_frameTests {i : ℕ} {tests : FrameTests}
    (h : r.frameTests orderBy frame i = .ok tests) :
    Leads tests.ahead members ∧ Leads tests.through members := by
  have hsorts := hr.sortsBy ho hnan
  have hpeers := Relation.leads_peerTests hsorts hordered frame i
  by_cases hoffsets : frame.unit = .range ∧ frame.hasOffsets = true
  · obtain ⟨k, type, rfl, htype, hmeasured, -⟩ := hmeasures hoffsets.1 hoffsets.2
    have hmeasured := hordered.measured hr hnan hin (hc k (by simp)) htype hmeasured
    have hbound : ∀ {passes : Quantity → Quantity → Bool} {peers test : ℕ → Bool} {bound : FrameBound},
        (∀ t, Descends (passes t)) → Leads peers members →
          r.boundTest k type passes peers bound i = .ok test → Leads test members := by
      intro passes peers test bound hpasses hlead htest
      unfold Relation.boundTest at htest
      split at htest
      · obtain ⟨t, -, rfl⟩ := Result.map_eq_ok.mp htest
        exact List.pairwise_map.mp (hmeasured.leads_inFront (hpasses t))
      · obtain ⟨t, -, rfl⟩ := Result.map_eq_ok.mp htest
        exact List.pairwise_map.mp (hmeasured.leads_inFront (hpasses t))
      · cases htest
        exact hlead
    rw [frameTests_eq htype hoffsets.1] at h
    obtain ⟨ahead, hahead, h⟩ := Result.bind_eq_ok.mp h
    obtain ⟨through, hthrough, h⟩ := Result.bind_eq_ok.mp h
    cases h
    exact ⟨hbound descends_less hpeers.1 hahead, hbound descends_not_less hpeers.2 hthrough⟩
  · have hplain : frame.unit = .range → frame.hasOffsets = false := by
      intro hunit
      simpa [hunit] using hoffsets
    rw [frameTests_eq_peerTests hplain] at h
    cases h
    exact hpeers

end Ordered

end FrameExtent
end OrderedRelations
