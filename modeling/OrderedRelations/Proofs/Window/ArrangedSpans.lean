import OrderedRelations.Proofs.Window.RangeArrangement
import OrderedRelations.Proofs.Window.SlidingMoves
import OrderedRelations.Proofs.Window.SpanOrder
import OrderedRelations.Proofs.Window.Validation

/-!
# Spans over arrangements

Over a partition that an arrangement has put in order, the frames of an accepted specification go
forward as long as coordinates and offsets are whole. So one accumulator slides over all of them.
-/

namespace OrderedRelations

namespace Arrangement

variable {r : Relation} {partitionBy : List String} {orderBy : List OrderKey}
  {parts : List Partition} {p : Partition}

/-- An arranged partition holds rows of the relation, and their order cells have comparable
forms. -/
theorem comparable_of_mem_positions (hr : r.WellFormed)
    (hp : ∀ name ∈ partitionBy, name ∈ r.names) (ho : ∀ k ∈ orderBy, k.column ∈ r.names)
    (hnan : r.NaNFree orderBy) (hparts : positions r partitionBy orderBy = .ok parts)
    (hmem : p ∈ parts) : (∀ i ∈ p.positions, i < r.size) ∧
      ∀ k ∈ orderBy, ∀ i ∈ p.positions, (r.cell k.column i).comparable?.isSome = true := by
  obtain ⟨hc, rfl⟩ := eq_arranged_of_positions hp ho (hr.sortsBy ho hnan) hparts
  have hin := lt_size_of_arranged hmem
  exact ⟨hin, fun k hk i hi => hc k hk i (hin i hi)⟩

end Arrangement

namespace FrameExtent

variable {r : Relation} {orderBy : List OrderKey} {positions : List ℕ} {frame : FrameSpec}

/-- Spans without range offsets stay inside the partition and are in order. -/
theorem spans_ordered (hin : ∀ i ∈ positions, i < r.size) (ho : ∀ k ∈ orderBy, k.column ∈ r.names)
    (hc : ∀ k ∈ orderBy, ∀ i ∈ positions, (r.cell k.column i).comparable?.isSome = true)
    (hplain : frame.unit = .range → frame.hasOffsets = false) :
    ∃ spans, FrameExtent.spans r.schema orderBy (Arrangement.rowsAt r positions) frame = .ok spans ∧
      spans.length = positions.length ∧ (∀ s ∈ spans, s.Within positions.length) ∧
      spans.Pairwise Span.Before := by
  have hlength : (Arrangement.rowsAt r positions).length = positions.length := by
    rw [rowsAt_eq_map hin, List.length_map]
  cases hunit : frame.unit with
  | rows =>
    refine ⟨rowSpans positions.length frame, ?_, by simp [rowSpans], rowSpans_within _ frame,
      rowSpans_ordered _ frame⟩
    simp [FrameExtent.spans, hunit, hlength]
  | range =>
    have hpeers := Peers.spans_within (positions.map fun i => orderBy.map fun k => r.sortCell k.column i)
    rw [List.length_map] at hpeers
    refine ⟨(Peers.spans (positions.map fun i => orderBy.map fun k => r.sortCell k.column i)).map
      (peerSpan positions.length frame), ?_, ?_, ?_, ?_⟩
    · simp only [FrameExtent.spans, hunit, keys_eq hin ho, bounds_eq hc, hplain hunit, hlength,
        Result.ok_bind]
      rfl
    · rw [List.length_map, Peers.length_spans, List.length_map]
    · intro s hs
      obtain ⟨t, ht, rfl⟩ := List.mem_map.mp hs
      exact peerSpan_within frame (hpeers t ht)
    · exact List.pairwise_map.mpr ((Peers.spans_ordered _).imp fun h => peerSpan_before frame h)

variable {partitionBy : List String} {k : OrderKey} {type : ColumnType}

/-- Every cell of an order column has its peers inside the partition. -/
theorem peers_within (r : Relation) (k : OrderKey) (positions : List ℕ) :
    (Peers.spans (positions.map fun i => [r.sortCell k.column i])).length =
        (positions.map (r.cell k.column)).length ∧
      ∀ s ∈ Peers.spans (positions.map fun i => [r.sortCell k.column i]),
        s.Within (positions.map (r.cell k.column)).length := by
  refine ⟨by rw [Peers.length_spans, List.length_map, List.length_map], ?_⟩
  simpa using Peers.spans_within (positions.map fun i => [r.sortCell k.column i])

/-- Spans of whole offsets stay inside an arranged partition and are in order. -/
theorem offsetSpans_forward (hr : r.WellFormed) (hp : ∀ name ∈ partitionBy, name ∈ r.names)
    {parts : List Partition} (hparts : Arrangement.positions r partitionBy [k] = .ok parts)
    {p : Partition} (hmem : p ∈ parts) (htype : r.schema.typeOf k.column = .ok type)
    (hunit : frame.unit = .range) (hoffsets : frame.hasOffsets = true)
    (hm : ∀ o, frame.start.offset? = some o ∨ frame.stop.offset? = some o → o.Measures type) :
    ∃ spans, FrameExtent.spans r.schema [k] (Arrangement.rowsAt r p.positions) frame = .ok spans ∧
      spans.length = p.positions.length ∧ (∀ s ∈ spans, s.Within p.positions.length) ∧
      spans.Pairwise Span.Before := by
  have hwhole : type.Whole := by
    simp only [FrameSpec.hasOffsets, Bool.or_eq_true, Option.isSome_iff_exists] at hoffsets
    rcases hoffsets with ⟨o, ho⟩ | ⟨o, ho⟩
    · exact (hm o (.inl ho)).whole
    · exact (hm o (.inr ho)).whole
  obtain ⟨hin, harranged⟩ := arranged_of_positions hr hp hparts hmem htype hwhole
  have hcol : k.column ∈ r.names := Schema.mem_names_of_typeOf htype
  have hc : ∀ i ∈ p.positions, (r.cell k.column i).comparable?.isSome = true := by
    simpa using harranged.comparable
  obtain ⟨hlength, hpeers⟩ := peers_within r k p.positions
  rw [spans_eq_offsetSpans hin hcol htype hc hunit hoffsets]
  simpa using harranged.offsetSpans_ordered hm hlength hpeers harranged.peers_isRun

variable {spec : WindowSpec} {parts : List Partition} {p : Partition}

/-- The frames of a partition arranged by its own specification go forward, whether they count
rows, reach over peers or measure whole offsets: all of them lie inside the partition, one
accumulator slides over them, and every row enters it at most once and leaves it at most once. -/
theorem frames_slide (hr : r.WellFormed) (hv : Window.validate r.schema spec = .ok (some frame))
    (hnan : r.NaNFree spec.orderBy)
    (hparts : Arrangement.positions r spec.partitionBy spec.orderBy = .ok parts) (hmem : p ∈ parts)
    (hunits : frame.unit = .range → ∀ o, frame.start.offset? = some o ∨ frame.stop.offset? = some o →
      ∀ k ∈ spec.orderBy, ∀ type, r.schema.typeOf k.column = .ok type → o.Measures type) :
    ∃ spans, FrameExtent.spans r.schema spec.orderBy (Arrangement.rowsAt r p.positions) frame =
        .ok spans ∧
      spans.length = p.positions.length ∧ (∀ s ∈ spans, s.Within p.positions.length) ∧
      (spans.Pairwise fun s t =>
        s.first ≤ t.first ∧ FrameAggregate.stop s ≤ FrameAggregate.stop t) ∧
      (∀ kind values, FrameAggregate.overFrames kind values spans =
          FrameAggregate.slide values spans (.fresh kind) ∧
        FrameAggregate.slide values spans (.fresh kind) =
          FrameAggregate.perform values (FrameAggregate.moves 0 0 spans) (.fresh kind)) ∧
      ∃ entries exits, entries ≤ p.positions.length ∧ exits ≤ p.positions.length ∧
        (FrameAggregate.moves 0 0 spans).filterMap FrameAggregate.Move.entered? =
          List.range entries ∧
        (FrameAggregate.moves 0 0 spans).filterMap FrameAggregate.Move.left? = List.range exits := by
  have hvalid := Window.validate_eq_ok hv
  obtain ⟨hin, hc⟩ := Arrangement.comparable_of_mem_positions hr hvalid.partitionColumns
    hvalid.orderColumns hnan hparts hmem
  obtain ⟨spans, hspans, hlength, hwithin, hordered⟩ : ∃ spans,
      FrameExtent.spans r.schema spec.orderBy (Arrangement.rowsAt r p.positions) frame = .ok spans ∧
        spans.length = p.positions.length ∧ (∀ s ∈ spans, s.Within p.positions.length) ∧
        spans.Pairwise Span.Before := by
    by_cases hoffsets : frame.unit = .range ∧ frame.hasOffsets = true
    · obtain ⟨k, type, hk, htype, -, -⟩ := hvalid.measures frame rfl hoffsets.1 hoffsets.2
      have hm : ∀ o, frame.start.offset? = some o ∨ frame.stop.offset? = some o → o.Measures type :=
        fun o ho => hunits hoffsets.1 o ho k (by simp [hk]) type htype
      rw [hk] at hparts hc ⊢
      exact offsetSpans_forward hr hvalid.partitionColumns hparts hmem htype hoffsets.1 hoffsets.2 hm
    · have hplain : frame.unit = .range → frame.hasOffsets = false := by
        intro hunit
        simpa [hunit] using hoffsets
      exact spans_ordered hin hvalid.orderColumns hc hplain
  have hmonotone : FrameAggregate.isMonotone 0 0 spans = true := by
    refine FrameAggregate.isMonotone_of_pairwise (fun s hs => ?_) hordered
    have hfirst := (hwithin s hs).first_nonneg
    exact ⟨hfirst, hfirst.trans (Int.le_max_left _ _)⟩
  have hstop : ∀ s ∈ spans, FrameAggregate.stop s ≤ p.positions.length := fun s hs =>
    max_le (hwithin s hs).first_le (hwithin s hs).stop_le
  refine ⟨spans, hspans, hlength, hwithin, ?_, fun kind values => ⟨?_, ?_⟩,
    FrameAggregate.moves_touch_once hmonotone hstop⟩
  · exact hordered.imp fun h => ⟨h.1, FrameAggregate.stop_le_stop h⟩
  · exact if_pos hmonotone
  · exact FrameAggregate.slide_eq_perform hmonotone _

/-- How many days are marked from two days before each day on. -/
def markCounts : WindowSpec :=
  ⟨.aggregate .count "day", [], [latestFirst], some sinceTwoDays, none⟩

theorem frames_slide_dayMarks :
    Window.validate dayMarks.schema markCounts = .ok (some sinceTwoDays) ∧
    ∃ parts p, Arrangement.positions dayMarks [] [latestFirst] = .ok parts ∧ p ∈ parts ∧
      p.positions.length = 3 ∧ ∃ spans,
        FrameExtent.spans dayMarks.schema [latestFirst]
          (Arrangement.rowsAt dayMarks p.positions) sinceTwoDays = .ok spans ∧
        spans.length = 3 ∧
        ∀ kind values, FrameAggregate.overFrames kind values spans =
          FrameAggregate.perform values (FrameAggregate.moves 0 0 spans) (.fresh kind) := by
  have hv : Window.validate dayMarks.schema markCounts = .ok (some sinceTwoDays) := rfl
  have hr : dayMarks.WellFormed := by decide
  have hcol : ∀ k ∈ [latestFirst], k.column ∈ dayMarks.names := by decide
  have hnone : ∀ name ∈ ([] : List String), name ∈ dayMarks.names := by simp
  have hnan : dayMarks.NaNFree [latestFirst] := by decide
  have hparts := Arrangement.positions_eq_ok hnone hcol (hr.sortsBy hcol hnan) (by decide)
  have hmem : (⟨[], [0, 1, 2].mergeSort fun i j => !dayMarks.keysBefore [latestFirst] j i⟩ : Partition) ∈
      dayMarks.arranged [] [latestFirst] := by
    simp [Relation.arranged, show dayMarks.groups [] = [⟨[], [0, 1, 2]⟩] from rfl]
  have hunits : sinceTwoDays.unit = .range → ∀ o,
      sinceTwoDays.start.offset? = some o ∨ sinceTwoDays.stop.offset? = some o →
      ∀ k ∈ markCounts.orderBy, ∀ type, dayMarks.schema.typeOf k.column = .ok type →
        o.Measures type := by
    intro _ o ho k hk type htype
    obtain rfl : Offset.whole 2 = o := by simpa [sinceTwoDays, FrameBound.offset?] using ho
    obtain rfl : k = latestFirst := by simpa [markCounts] using hk
    cases htype
    exact .inr (.inl rfl)
  obtain ⟨spans, hspans, hlength, -, -, hslide, -⟩ := frames_slide hr hv hnan hparts hmem hunits
  refine ⟨hv, _, _, hparts, hmem, by simp, spans, hspans, by simpa using hlength, ?_⟩
  exact fun kind values => (hslide kind values).1.trans (hslide kind values).2

end FrameExtent
end OrderedRelations
