import Mathlib
import OrderedRelations.Proofs.Number.Representable
import OrderedRelations.Proofs.Window.Agreement
import OrderedRelations.Proofs.Window.PlainFrames

/-!
# Bounds at the current row

The current row, no distance in front of it and no distance behind it are one bound. Frames of rows
count from the same place. A range frame looks for the coordinate of the row where it took its peers,
and cuts the partition at the same places, since the coordinates tie where the keys do.
-/

namespace OrderedRelations

namespace FrameBound

/-- The bounds that lie at the current row. -/
inductive AtRow : FrameBound → Prop
  | current : AtRow currentRow
  | preceding : AtRow (preceding (.whole 0))
  | following : AtRow (following (.whole 0))

/-- The same bound, however it spells the current row. -/
def Respells (b b' : FrameBound) : Prop := b = b' ∨ b.AtRow ∧ b'.AtRow

variable {b b' : FrameBound}

theorem magnitude_zero : (Offset.whole 0).magnitude? = some .zero := by decide +kernel

/-- A bound at the current row can be made. -/
theorem AtRow.exists_make (h : b.AtRow) : ∃ kind offset, make kind offset = .ok b := by
  have hcheck : checkOffset (.whole 0) = .ok (.whole 0) := by
    rw [checkOffset, magnitude_zero]
    rfl
  cases h with
  | current => exact ⟨.currentRow, none, rfl⟩
  | preceding => exact ⟨.preceding, some (.whole 0), by rw [make, hcheck]; rfl⟩
  | following => exact ⟨.following, some (.whole 0), by rw [make, hcheck]; rfl⟩

theorem AtRow.ne_unboundedPreceding (h : b.AtRow) : b ≠ unboundedPreceding := by
  cases h <;> simp

theorem AtRow.ne_unboundedFollowing (h : b.AtRow) : b ≠ unboundedFollowing := by
  cases h <;> simp

/-- A bound at the current row has its position, up to the sign of zero. -/
theorem AtRow.exists_position (h : b.AtRow) :
    ∃ x, b.position? = some (1, x) ∧ x.place? = some (0, 0) := by
  cases h with
  | current => exact ⟨.zero, rfl, rfl⟩
  | preceding => exact ⟨.negativeZero, by rw [position?, magnitude_zero]; rfl, rfl⟩
  | following => exact ⟨.zero, by rw [position?, magnitude_zero]; rfl, rfl⟩

/-- Spellings of a bound have positions that compare alike. -/
theorem Respells.exists_position (h : b.Respells b') {p : ℤ × Binary64} (hp : b.position? = some p) :
    ∃ p', b'.position? = some p' ∧ p'.1 = p.1 ∧ p'.2.place? = p.2.place? := by
  rcases h with rfl | ⟨h, h'⟩
  · exact ⟨p, hp, rfl, rfl⟩
  · obtain ⟨x, hx, hplace⟩ := h.exists_position
    obtain ⟨x', hx', hplace'⟩ := h'.exists_position
    cases hx.symm.trans hp
    exact ⟨_, hx', rfl, hplace'.trans hplace.symm⟩

theorem isAfter_congr {p p' q q' : ℤ × Binary64} (hp : p'.1 = p.1 ∧ p'.2.place? = p.2.place?)
    (hq : q'.1 = q.1 ∧ q'.2.place? = q.2.place?) : isAfter p' q' = isAfter p q := by
  have hless : (Quantity.real q'.2).less (.real p'.2) = (Quantity.real q.2).less (.real p.2) :=
    Quantity.less_congr hq.2 hp.2
  rw [isAfter, isAfter, hp.1, hq.1, hless]

theorem Respells.checkRows_eq (h : b.Respells b') :
    FrameSpec.checkRows b' = FrameSpec.checkRows b := by
  rcases h with rfl | ⟨h, h'⟩
  · rfl
  · cases h <;> cases h' <;> rfl

end FrameBound

/-- Spelling the current row in another way makes a frame again. -/
theorem FrameSpec.make_respelled {unit : FrameUnit} {start stop start' stop' : FrameBound}
    {frame : FrameSpec} (hstart : start.Respells start') (hstop : stop.Respells stop')
    (h : make unit start stop = .ok frame) : make unit start' stop' = .ok ⟨unit, start', stop'⟩ := by
  obtain ⟨⟨hs, ht⟩, ⟨p, q, hp, hq, hafter⟩, hrows, -⟩ := make_eq_ok_iff.mp h
  obtain ⟨p', hp', hplace⟩ := hstart.exists_position hp
  obtain ⟨q', hq', hplace'⟩ := hstop.exists_position hq
  refine make_eq_ok_iff.mpr ⟨⟨?_, ?_⟩, ⟨p', q', hp', hq', ?_⟩, ?_, rfl⟩
  · rcases hstart with rfl | ⟨-, h'⟩
    · exact hs
    · exact h'.ne_unboundedFollowing
  · rcases hstop with rfl | ⟨-, h'⟩
    · exact ht
    · exact h'.ne_unboundedPreceding
  · rw [FrameBound.isAfter_congr hplace hplace', hafter]
  · rw [hstart.checkRows_eq, hstop.checkRows_eq]
    exact hrows

namespace FrameExtent

/-- No distance leads to the place it starts from. -/
theorem exists_target_zero (type : ColumnType) {c : Quantity} (hc : ∀ x, c = .real x → x.IsDouble)
    (backward : Bool) :
    ∃ t, target type c backward (.whole 0) = .ok t ∧ t.place? = c.place? := by
  have hdistance : ((Offset.whole 0).inUnitsOf type).quantity? = some (.whole 0) := by
    cases type <;> simp [Offset.inUnitsOf, Offset.quantity?]
  have hzero : Binary64.ofInt? 0 = some .zero := by decide +kernel
  cases c with
  | whole n =>
    refine ⟨.whole n, ?_, rfl⟩
    cases backward <;> simp [target, hdistance]
  | real x =>
    cases backward with
    | false =>
      refine ⟨.real (x.add .zero), ?_, Binary64.place?_add_zero (hc x rfl)⟩
      simp [target, hdistance, Quantity.add?, Quantity.combine?, Quantity.toBinary64?, hzero]
    | true =>
      refine ⟨.real (x.sub .zero), ?_, Binary64.place?_sub_zero x⟩
      simp [target, hdistance, Quantity.sub?, Quantity.combine?, Quantity.toBinary64?, hzero]

variable {k : OrderKey} {type : ColumnType} {values : List Value}

/-- The coordinate of a machine number is one. -/
theorem Measured.isDouble_coordinateOf (h : Measured k type values) {v : Value} (hv : v ∈ values)
    (hnull : v.isNull = false) (hdouble : ∀ x, v = .float x → x.IsDouble) {x : Binary64}
    (hx : k.coordinateOf type v = .real x) : x.IsDouble := by
  by_cases htype : type.Whole
  · rw [h.coordinateOf_eq htype hv hnull] at hx
    cases hx
  · obtain rfl : type = .float := by
      have hmeasurable := h.measurable
      cases type <;> simp [ColumnType.Whole, ColumnType.isMeasurable] at htype hmeasurable ⊢
    have hconforms := h.typed v hv
    cases v with
    | float y =>
      have hquantity : (Value.float y).quantityAt .float = .ok (.real y) := rfl
      cases hd : k.descending with
      | false =>
        simp only [OrderKey.coordinateOf, hquantity, hd, Bool.false_eq_true, if_false,
          Quantity.real.injEq] at hx
        exact hx ▸ hdouble y rfl
      | true =>
        simp only [OrderKey.coordinateOf, hquantity, hd, if_true, Quantity.neg,
          Quantity.real.injEq] at hx
        exact hx ▸ (hdouble y rfl).neg
    | null => simp [Value.isNull] at hnull
    | _ => simp [Value.conforms] at hconforms

end FrameExtent

namespace Relation
open FrameExtent (Measured)

variable {r : Relation} {k : OrderKey} {type : ColumnType} {members : List ℕ} {i j : ℕ}
  {t : Quantity}

variable (h : Measured k type (members.map (r.cell k.column))) (hi : i ∈ members) (hj : j ∈ members)
  (hnull : (r.cell k.column i).isNull = false)

include h hi hj hnull in
/-- Nulls stand at the end that the key names. -/
theorem before_of_isNull (hnj : (r.cell k.column j).isNull = true) :
    r.keysBefore [k] j i = k.nullsFirst ∧ r.keysBefore [k] i j = !k.nullsFirst := by
  obtain ⟨v, hv, -⟩ := h.sortable (List.mem_map_of_mem hi)
  obtain ⟨w, hw, -⟩ := h.sortable (List.mem_map_of_mem hj)
  have hnv := (Value.isNull_of_comparable? hv).trans hnull
  have hnw := (Value.isNull_of_comparable? hw).trans hnj
  simp [keysBefore_singleton, sortCell, hv, hw, OrderKey.before, hnv, hnw]

section Cuts

variable (ht : t.place? = (k.coordinateOf type (r.cell k.column i)).place?)
include h hi hj hnull ht

/-- In front of the coordinate of a row stand the rows before it. -/
theorem inFront_less_eq :
    k.inFront type (fun c => c.less t) (r.cell k.column j) = r.keysBefore [k] j i := by
  cases hnj : (r.cell k.column j).isNull with
  | true => simp only [OrderKey.inFront, hnj, if_true, before_of_isNull h hi hj hnull hnj]
  | false =>
    simp only [OrderKey.inFront, hnj, Bool.false_eq_true, if_false, Quantity.less_congr rfl ht,
      h.less_eq_keysBefore hj hi hnj hnull]

/-- Up to the coordinate of a row stand the rows that are not behind it. -/
theorem inFront_not_less_eq :
    k.inFront type (fun c => !t.less c) (r.cell k.column j) = !r.keysBefore [k] i j := by
  cases hnj : (r.cell k.column j).isNull with
  | true =>
    simp only [OrderKey.inFront, hnj, if_true, before_of_isNull h hi hj hnull hnj, Bool.not_not]
  | false =>
    simp only [OrderKey.inFront, hnj, Bool.false_eq_true, if_false, Quantity.less_congr ht rfl,
      h.less_eq_keysBefore hi hj hnull hnj]

end Cuts

section Bounds

variable {frame frame' : FrameSpec}
  (h : Measured k type (members.map (r.cell k.column))) (hi : i ∈ members)
  (hdouble : ∀ x, r.cell k.column i = .float x → x.IsDouble)
include h hi hdouble

/-- A bound at the current row counts the rows of its peers. -/
theorem count_atRow {b : FrameBound} (hb : b.AtRow) {passes : Quantity → Quantity → Bool}
    {peers : ℕ → Bool} (hpeers : ∀ t, (r.cell k.column i).isNull = false →
      t.place? = (k.coordinateOf type (r.cell k.column i)).place? →
        ∀ j ∈ members, k.inFront type (passes t) (r.cell k.column j) = peers j) :
    ((r.boundTest k type passes peers b i).map fun test => (members.countP test : ℤ)) =
      .ok (members.countP peers : ℤ) := by
  cases hnull : (r.cell k.column i).isNull with
  | true => cases hb <;> simp [boundTest, hnull]
  | false =>
    have hcut : ∀ backward, (((FrameExtent.target type (k.coordinateOf type (r.cell k.column i))
        backward (.whole 0)).map fun t j => k.inFront type (passes t) (r.cell k.column j)).map
          fun test => (members.countP test : ℤ)) = .ok (members.countP peers : ℤ) := by
      intro backward
      obtain ⟨t, htarget, ht⟩ := FrameExtent.exists_target_zero type
        (fun x hx => h.isDouble_coordinateOf (List.mem_map_of_mem hi) hnull hdouble hx) backward
      rw [htarget, Result.map_ok, Result.map_ok,
        List.countP_congr fun j hj => by rw [hpeers t hnull ht j hj]]
    cases hb with
    | current => rfl
    | preceding =>
      simpa only [boundTest, hnull] using hcut true
    | following =>
      simpa only [boundTest, hnull] using hcut false

/-- The rows in front of a frame are as many however its start spells the current row. -/
theorem count_ahead_respelled (hstart : frame.start.Respells frame'.start) :
    ((r.boundTest k type (fun t c => c.less t) (r.peerTests [k] frame' i).ahead frame'.start i).map
        fun test => (members.countP test : ℤ)) =
      (r.boundTest k type (fun t c => c.less t) (r.peerTests [k] frame i).ahead frame.start i).map
        fun test => (members.countP test : ℤ) := by
  rcases hstart with hsame | ⟨hrow, hrow'⟩
  · simp only [peerTests, hsame]
  · have hcut : ∀ t : Quantity, (r.cell k.column i).isNull = false →
        t.place? = (k.coordinateOf type (r.cell k.column i)).place? → ∀ j ∈ members,
          k.inFront type (fun c => c.less t) (r.cell k.column j) = r.keysBefore [k] j i :=
      fun t hnull ht j hj => inFront_less_eq h hi hj hnull ht
    simp only [peerTests, hrow.ne_unboundedPreceding, hrow'.ne_unboundedPreceding, if_false]
    rw [count_atRow h hi hdouble hrow hcut, count_atRow h hi hdouble hrow' hcut]

/-- So are the rows up to its end. -/
theorem count_through_respelled (hstop : frame.stop.Respells frame'.stop) :
    ((r.boundTest k type (fun t c => !t.less c) (r.peerTests [k] frame' i).through frame'.stop i).map
        fun test => (members.countP test : ℤ)) =
      (r.boundTest k type (fun t c => !t.less c) (r.peerTests [k] frame i).through frame.stop i).map
        fun test => (members.countP test : ℤ) := by
  rcases hstop with hsame | ⟨hrow, hrow'⟩
  · simp only [peerTests, hsame]
  · have hcut : ∀ t : Quantity, (r.cell k.column i).isNull = false →
        t.place? = (k.coordinateOf type (r.cell k.column i)).place? → ∀ j ∈ members,
          k.inFront type (fun c => !t.less c) (r.cell k.column j) = !r.keysBefore [k] i j :=
      fun t hnull ht j hj => inFront_not_less_eq h hi hj hnull ht
    simp only [peerTests, hrow.ne_unboundedFollowing, hrow'.ne_unboundedFollowing, if_false]
    rw [count_atRow h hi hdouble hrow hcut, count_atRow h hi hdouble hrow' hcut]

end Bounds

/-- What a range needs to measure distances: one key, and machine numbers on a number line. -/
structure OnNumberLine (r : Relation) (orderBy : List OrderKey) : Prop where
  measurable : ∃ k type, orderBy = [k] ∧ r.schema.typeOf k.column = .ok type ∧
    type.isMeasurable = true
  doubles : ∀ k ∈ orderBy, ∀ i < r.size, ∀ x, r.cell k.column i = .float x → x.IsDouble

end Relation

namespace FrameExtent

variable {r : Relation} {partitionBy : List String} {orderBy : List OrderKey}
  {parts : List Partition} {p : Partition} {frame frame' : FrameSpec}

/-- Row frames count from the current row, however it is spelt. -/
theorem rowSpans_respelled (n : ℕ) (hstart : frame.start.Respells frame'.start)
    (hstop : frame.stop.Respells frame'.stop) : rowSpans n frame' = rowSpans n frame := by
  have hfirst : ∀ {b : FrameBound} (i : ℤ), b.AtRow → firstRow i b = i := by
    intro b i hb
    cases hb <;> simp [firstRow, rowCount]
  have hlast : ∀ {b : FrameBound} (i : ℤ), b.AtRow → stopRow n i b = i + 1 := by
    intro b i hb
    cases hb <;> simp [stopRow, rowCount]
  have hspan : rowSpan n frame' = rowSpan n frame := by
    funext i
    have hfirst' : firstRow i frame'.start = firstRow i frame.start := by
      rcases hstart with hsame | ⟨hrow, hrow'⟩
      · rw [hsame]
      · rw [hfirst _ hrow, hfirst _ hrow']
    have hlast' : stopRow n i frame'.stop = stopRow n i frame.stop := by
      rcases hstop with hsame | ⟨hrow, hrow'⟩
      · rw [hsame]
      · rw [hlast _ hrow, hlast _ hrow']
    rw [rowSpan, rowSpan, hfirst', hlast']
  rw [rowSpans, rowSpans, hspan]

/-- Every partition has the same frames, however their bounds spell the current row. -/
theorem spans_respelled (hr : r.WellFormed) (hnan : r.NaNFree orderBy)
    (hparts : Arrangement.positions r partitionBy orderBy = .ok parts) (hp : p ∈ parts)
    (hunit : frame'.unit = frame.unit) (hstart : frame.start.Respells frame'.start)
    (hstop : frame.stop.Respells frame'.stop)
    (hline : frame.unit = .range → r.OnNumberLine orderBy)
    (hmeasures : Window.MeasuresOrder r.schema orderBy frame)
    (hmeasures' : Window.MeasuresOrder r.schema orderBy frame') :
    spans r.schema orderBy (Arrangement.rowsAt r p.positions) frame' =
      spans r.schema orderBy (Arrangement.rowsAt r p.positions) frame := by
  cases hframe : frame.unit with
  | rows => simp only [spans, hunit, hframe, rowSpans_respelled _ hstart hstop]
  | range =>
    rw [hframe] at hunit
    obtain ⟨⟨k, type, rfl, htype, hmeasurable⟩, hdoubles⟩ := hline hframe
    have hmeasured := measured_of_positions hr hnan hparts hp htype hmeasurable
    rw [spans_of_positions hr hnan hparts hp hmeasures (.inl hframe),
      spans_of_positions hr hnan hparts hp hmeasures' (.inl hunit)]
    refine Result.mapM_congr (List.forall₂_same.mpr fun i hi => ?_)
    have hdouble := hdoubles k (by simp) i (Arrangement.lt_size_of_positions hparts hp i hi)
    rw [span_frameTests htype hframe, span_frameTests htype hunit,
      Relation.count_ahead_respelled hmeasured hi hdouble hstart,
      Relation.count_through_respelled hmeasured hi hdouble hstop]

end FrameExtent

namespace Window

variable {r : Relation} {spec : WindowSpec} {unit : FrameUnit} {start stop start' stop' : FrameBound}

theorem checkDuration_respelled {b b' : FrameBound} (h : b.Respells b') (column : String)
    (type : ColumnType) : checkDuration column type b' = checkDuration column type b := by
  rcases h with rfl | ⟨h, h'⟩
  · rfl
  · cases h <;> cases h' <;> rfl

/-- Along a number line, a range is checked for durations only, which plain bounds are not. -/
theorem checkFrame_eq {k : OrderKey} {type : ColumnType} (horder : spec.orderBy = [k])
    (htype : r.schema.typeOf k.column = .ok type) (hmeasurable : type.isMeasurable = true)
    (start stop : FrameBound) : checkFrame r.schema spec ⟨.range, start, stop⟩ = (do
      checkDuration k.column type start
      checkDuration k.column type stop) := by
  cases hoffsets : FrameSpec.hasOffsets ⟨.range, start, stop⟩ with
  | true => simp [checkFrame, hoffsets, checkRangeOffsets, horder, htype, hmeasurable]
  | false =>
    obtain ⟨hstart, hstop⟩ : start.offset? = none ∧ stop.offset? = none := by
      simpa [FrameSpec.hasOffsets] using hoffsets
    simp [checkFrame, hoffsets, checkDuration, hstart, hstop]

/-- No spelling of the current row is refused where another is accepted. -/
theorem checkFrame_respelled (hstart : start.Respells start') (hstop : stop.Respells stop')
    (hline : unit = .range → r.OnNumberLine spec.orderBy) :
    checkFrame r.schema spec ⟨unit, start', stop'⟩ = checkFrame r.schema spec ⟨unit, start, stop⟩ := by
  cases unit with
  | rows =>
    have hrows : ∀ b b', checkFrame r.schema spec ⟨.rows, b, b'⟩ = .ok () := fun b b' =>
      checkFrame_of_plain fun hunit => absurd hunit (by simp)
    rw [hrows, hrows]
  | range =>
    obtain ⟨⟨k, type, horder, htype, hmeasurable⟩, -⟩ := hline rfl
    rw [checkFrame_eq horder htype hmeasurable, checkFrame_eq horder htype hmeasurable,
      checkDuration_respelled hstart, checkDuration_respelled hstop]

/-- The current row, no distance in front of it and no distance behind it are one bound. All three
can be made, and wherever one of them starts or ends a frame of a function, the others make a frame
too, and the function has the same values. A frame of rows may have any order; a range needs one key
over machine numbers, days or moments. -/
theorem evaluate_respelled (hr : r.WellFormed) (hnan : r.NaNFree spec.orderBy)
    (hneeds : spec.kind.needsOrder = false)
    (hframe : spec.frame.getD spec.defaultFrame = ⟨unit, start, stop⟩)
    (hmake : FrameSpec.make unit start stop = .ok ⟨unit, start, stop⟩)
    (hstart : start.Respells start') (hstop : stop.Respells stop')
    (hline : unit = .range → r.OnNumberLine spec.orderBy) :
    (∀ b : FrameBound, b.AtRow → ∃ kind offset, FrameBound.make kind offset = .ok b) ∧
    FrameSpec.make unit start' stop' = .ok ⟨unit, start', stop'⟩ ∧
    evaluate r { spec with frame := some ⟨unit, start', stop'⟩ } = evaluate r spec := by
  refine ⟨fun b hb => hb.exists_make, FrameSpec.make_respelled hstart hstop hmake, ?_⟩
  refine evaluate_congr rfl rfl ?_ fun frame frame' parts hv hv' hparts p hp => ?_
  · have hrefusal : refusal r.schema { spec with frame := some ⟨unit, start', stop'⟩ } = (do
        Arrangement.checkColumns r.schema spec.partitionBy spec.orderBy
        requireNumeric r.schema spec.function
        checkFrame r.schema spec ⟨unit, start', stop'⟩) := refusal_of_frame hneeds
    rw [hrefusal, refusal_of_frame hneeds, hframe, checkFrame_respelled hstart hstop hline]
  · have hmeasures := (validate_eq_ok hv).measuresOrder
    have hmeasures' := (validate_eq_ok hv').measuresOrder
    rw [frame_of_validate hv hneeds, Option.getD_some, hframe] at hmeasures ⊢
    rw [frame_of_validate hv' hneeds, Option.getD_some, Option.getD_some] at hmeasures' ⊢
    exact evaluateRows_congr rfl rfl
      (FrameExtent.spans_respelled hr hnan hparts hp rfl hstart hstop hline hmeasures hmeasures')

/-- Levels with both zeros and a missing one. -/
def levels : Relation :=
  ⟨⟨[⟨"elevation", .float, by decide⟩], by decide⟩,
    [[.float .negativeZero], [.float (.number 1)], [.null], [.float .zero]]⟩

def highestFirst : OrderKey := ⟨"elevation", .desc, .first⟩

/-- How many rows tie with each one. -/
def tied : WindowSpec :=
  ⟨.countRows, [], [highestFirst], some ⟨.range, .currentRow, .currentRow⟩, none⟩

theorem onNumberLine_levels : levels.OnNumberLine [highestFirst] := by
  refine ⟨⟨highestFirst, .float, rfl, rfl, rfl⟩, ?_⟩
  have hone : (Binary64.number 1).IsDouble :=
    ⟨⟨1, 0, by simp, by decide, by decide⟩, by rw [abs_one]; exact one_lt_zpow₀ one_lt_two (by decide)⟩
  intro k hk i hi x hx
  obtain rfl := List.mem_singleton.mp hk
  have hrow : i = 0 ∨ i = 1 ∨ i = 2 ∨ i = 3 := by
    have hsize : levels.size = 4 := rfl
    omega
  rcases hrow with rfl | rfl | rfl | rfl
  · cases hx
    trivial
  · cases hx
    exact hone
  · cases hx
  · cases hx
    exact Binary64.isDouble_zero

/-- Both zeros tie, from the current row to itself and from no distance back to no distance on. -/
theorem evaluate_respelled_levels :
    FrameSpec.make .range (.preceding (.whole 0)) (.following (.whole 0)) =
      .ok ⟨.range, .preceding (.whole 0), .following (.whole 0)⟩ ∧
    evaluate levels
        { tied with frame := some ⟨.range, .preceding (.whole 0), .following (.whole 0)⟩ } =
      .ok [.int 2, .int 1, .int 1, .int 2] := by
  have hmake : FrameSpec.make .range .currentRow .currentRow =
      .ok ⟨.range, .currentRow, .currentRow⟩ :=
    FrameSpec.make_eq_ok_iff.mpr ⟨by simp, ⟨_, _, rfl, rfl, by decide +kernel⟩, nofun, rfl⟩
  obtain ⟨-, hmade, hsame⟩ := @evaluate_respelled levels tied .range .currentRow .currentRow
    (.preceding (.whole 0)) (.following (.whole 0)) (by decide) (by decide) rfl rfl hmake
    (.inr ⟨.current, .preceding⟩) (.inr ⟨.current, .following⟩) fun _ => onNumberLine_levels
  have htied : evaluate levels tied = .ok [.int 2, .int 1, .int 1, .int 2] := by cbv
  exact ⟨hmade, hsame.trans htied⟩

end Window
end OrderedRelations
