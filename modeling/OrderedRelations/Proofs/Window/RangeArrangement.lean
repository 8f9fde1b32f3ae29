import OrderedRelations.Proofs.Window.ArrangedPositions
import OrderedRelations.Proofs.Window.RangeSpans

/-!
# Range frames over arrangements

A partition arranged by one key has the cells of its column in order, so its rows get the
declared spans.
-/

namespace OrderedRelations.FrameExtent

variable {r : Relation} {k : OrderKey} {type : ColumnType} {positions : List ℕ}

theorem rowsAt_eq_map (hin : ∀ i ∈ positions, i < r.size) :
    Arrangement.rowsAt r positions = positions.map r.valuesAt := by
  rw [Arrangement.rowsAt, List.filterMap_eq_map_iff_forall_eq_some]
  intro i hi
  have hlt : i < r.rows.length := hin i hi
  simp [Relation.valuesAt, hlt]

theorem orderValues_eq {orderBy : List OrderKey} (ho : ∀ k ∈ orderBy, k.column ∈ r.names)
    (values : List Value) :
    orderValues r.schema orderBy values = .ok (orderBy.map fun k => r.schema.cell values k.column) := by
  apply Result.mapM_eq_map
  intro k hk
  obtain ⟨i, hi⟩ := Schema.exists_indexOf (ho k hk)
  simp [Schema.indexOf, hi, Schema.cell, Arrangement.valueAt]

/-- The order values of arranged rows are the cells of the order columns. -/
theorem keys_eq {orderBy : List OrderKey} (hin : ∀ i ∈ positions, i < r.size)
    (ho : ∀ k ∈ orderBy, k.column ∈ r.names) :
    (Arrangement.rowsAt r positions).mapM (orderValues r.schema orderBy) =
      .ok (positions.map fun i => orderBy.map fun k => r.cell k.column i) := by
  rw [rowsAt_eq_map hin, Result.mapM_eq_map fun values _ => orderValues_eq ho values, List.map_map]
  rfl

/-- Cells that have comparable forms have peers. -/
theorem bounds_eq {orderBy : List OrderKey}
    (hc : ∀ k ∈ orderBy, ∀ i ∈ positions, (r.cell k.column i).comparable?.isSome = true) :
    Peers.bounds (positions.map fun i => orderBy.map fun k => r.cell k.column i) =
      .ok (Peers.spans (positions.map fun i => orderBy.map fun k => r.sortCell k.column i)) := by
  have hkeys : ∀ key ∈ positions.map fun i => orderBy.map fun k => r.cell k.column i,
      ∀ v ∈ key, v.comparable?.isSome = true := by
    simpa using fun i hi k hk => hc k hk i hi
  rw [Peers.bounds_eq_spans hkeys, List.map_map]
  simp only [Function.comp_def, List.map_map, Relation.sortCell]

/-- The spans over rows come from the cells of the order column and their comparable forms. -/
theorem spans_eq_offsetSpans (hin : ∀ i ∈ positions, i < r.size) (hcol : k.column ∈ r.names)
    (htype : r.schema.typeOf k.column = .ok type)
    (hc : ∀ i ∈ positions, (r.cell k.column i).comparable?.isSome = true) {frame : FrameSpec}
    (hunit : frame.unit = .range) (hoffsets : frame.hasOffsets = true) :
    spans r.schema [k] (Arrangement.rowsAt r positions) frame =
      offsetSpans k type (positions.map (r.cell k.column))
        (Peers.spans (positions.map fun i => [r.sortCell k.column i])) frame := by
  have hkeys : (Arrangement.rowsAt r positions).mapM (orderValues r.schema [k]) =
      .ok (positions.map fun i => [r.cell k.column i]) := keys_eq hin (by simpa using hcol)
  have hpeers : Peers.bounds (positions.map fun i => [r.cell k.column i]) =
      .ok (Peers.spans (positions.map fun i => [r.sortCell k.column i])) := by
    have hcells : ∀ l ∈ [k], ∀ i ∈ positions, (r.cell l.column i).comparable?.isSome = true := by
      simpa using hc
    exact bounds_eq hcells
  have hvalues : (positions.map fun i => [r.cell k.column i]).map
      (fun key => Arrangement.valueAt key 0) = positions.map (r.cell k.column) := by
    simp [Arrangement.valueAt]
  simp only [spans, hunit, hkeys, hpeers, hoffsets, htype, hvalues, Result.ok_bind]

theorem naNFree_of_whole (hr : r.WellFormed) (htype : r.schema.typeOf k.column = .ok type)
    (hwhole : type.Whole) : r.NaNFree [k] := by
  intro l hl i hi
  rw [List.mem_singleton.mp hl]
  exact Value.isNaN_of_whole hwhole (hr.conforms (Relation.valuesAt_mem hi) htype)

variable {partitionBy : List String} {parts : List Partition} {p : Partition}

/-- Arranging by one key puts the cells of its column in order. -/
theorem arranged_of_positions (hr : r.WellFormed) (hp : ∀ name ∈ partitionBy, name ∈ r.names)
    (hparts : Arrangement.positions r partitionBy [k] = .ok parts) (hmem : p ∈ parts)
    (htype : r.schema.typeOf k.column = .ok type) (hwhole : type.Whole) :
    (∀ i ∈ p.positions, i < r.size) ∧ Arranged k type (p.positions.map (r.cell k.column)) := by
  have hcol : ∀ k' ∈ [k], k'.column ∈ r.names := fun k' hk' => by
    rw [List.mem_singleton.mp hk']
    exact Schema.mem_names_of_typeOf htype
  have hconforms : ∀ i < r.size, (r.cell k.column i).conforms type = true :=
    fun i hi => hr.conforms (Relation.valuesAt_mem hi) htype
  have hsorts := hr.sortsBy hcol (naNFree_of_whole hr htype hwhole)
  obtain ⟨hc, rfl⟩ := Arrangement.eq_arranged_of_positions hp hcol hsorts hparts
  have hin := Arrangement.lt_size_of_arranged hmem
  have hcomparable : ∀ i ∈ p.positions, (r.cell k.column i).comparable?.isSome = true :=
    fun i hi => hc k (by simp) i (hin i hi)
  refine ⟨hin, hwhole, ?_, ?_, ?_⟩
  · simpa using fun i hi => hconforms i (hin i hi)
  · simpa using hcomparable
  · rw [List.pairwise_map]
    refine (Arrangement.arranged_pairwise hsorts hmem).imp_of_mem ?_
    intro i j hi hj hij
    obtain ⟨v, hv⟩ := Option.isSome_iff_exists.mp (hcomparable i hi)
    obtain ⟨w, hw⟩ := Option.isSome_iff_exists.mp (hcomparable j hj)
    have hbefore := k.before_eq_spot hwhole (hconforms i (hin i hi)) (hconforms j (hin j hj)) hv hw
    have hbefore' := k.before_eq_spot hwhole (hconforms j (hin j hj)) (hconforms i (hin i hi)) hw hv
    simp only [Relation.Precedes, Relation.keysBefore, Relation.sortCell, hv, hw, Option.getD_some,
      Bool.and_false, Bool.or_false, hbefore, hbefore', decide_eq_true_eq,
      decide_eq_false_iff_not, not_lt] at hij
    rcases hij with hlt | ⟨hle, -⟩
    · exact hlt.le
    · exact hle

/-- The peers of a position are the positions of its spot. -/
theorem Arranged.peers_isRun (h : Arranged k type (positions.map (r.cell k.column))) {i : ℕ}
    {a : Value} {s : Span} (ha : (positions.map (r.cell k.column))[i]? = some a)
    (hs : (Peers.spans (positions.map fun i => [r.sortCell k.column i]))[i]? = some s) :
    Peers.IsRun ((positions.map (r.cell k.column)).map k.spot) 0 (k.spot a) s := by
  have hform : ∀ i ∈ positions, (r.cell k.column i).comparable? = some (r.sortCell k.column i) := by
    intro i hi
    obtain ⟨v, hv⟩ := Option.isSome_iff_exists.mp
      (h.comparable _ (List.mem_map.mpr ⟨i, hi, rfl⟩))
    simp [Relation.sortCell, hv]
  have htyped : ∀ i ∈ positions, (r.cell k.column i).conforms type = true :=
    fun i hi => h.typed _ (List.mem_map.mpr ⟨i, hi, rfl⟩)
  have hsame : ∀ i ∈ positions, ∀ j ∈ positions,
      Value.sameKeys [r.sortCell k.column i] [r.sortCell k.column j] = true ↔
        k.spot (r.cell k.column i) = k.spot (r.cell k.column j) := by
    intro i hi j hj
    have hkey := k.sameKey_eq_spot h.whole (htyped i hi) (htyped j hj) (hform i hi) (hform j hj)
    simp [Value.sameKeys, hkey]
  have hsorted := h.sorted
  rw [List.pairwise_map] at hsorted
  have hspots : (positions.map (r.cell k.column)).map k.spot =
      positions.map fun i => k.spot (r.cell k.column i) := List.map_map
  obtain ⟨s', hs', hrun⟩ := Peers.isRun_spans hsame hsorted (hspots ▸ spot_getElem? ha)
  rw [hs] at hs'
  cases hs'
  rwa [hspots]

/-- Over every partition arranged by one key of whole coordinates, a range frame with offsets
spans the declared rows: neither the direction, nor the place of nulls, nor the kinds of its
bounds matter to the two bisections. -/
theorem range_spans_declared (hr : r.WellFormed) (hp : ∀ name ∈ partitionBy, name ∈ r.names)
    (hparts : Arrangement.positions r partitionBy [k] = .ok parts) (hmem : p ∈ parts)
    (htype : r.schema.typeOf k.column = .ok type) {start stop : FrameBound} {frame : FrameSpec}
    (hframe : FrameSpec.make .range start stop = .ok frame) (hoffsets : frame.hasOffsets = true)
    (hunits : ∀ o, start.offset? = some o ∨ stop.offset? = some o → o.Measures type) :
    ∃ spans, FrameExtent.spans r.schema [k] (Arrangement.rowsAt r p.positions) frame = .ok spans ∧
      spans.length = p.positions.length ∧
      ∀ (i : ℕ) s, spans[i]? = some s →
        frame.Spans k type (p.positions.map (r.cell k.column)) i s := by
  obtain ⟨hstart, hstop, rfl⟩ := FrameSpec.make_eq_ok hframe
  have hwhole : type.Whole := by
    simp only [FrameSpec.hasOffsets, Bool.or_eq_true, Option.isSome_iff_exists] at hoffsets
    rcases hoffsets with ⟨o, ho⟩ | ⟨o, ho⟩
    · exact (hunits o (.inl ho)).whole
    · exact (hunits o (.inr ho)).whole
  obtain ⟨hin, harranged⟩ := arranged_of_positions hr hp hparts hmem htype hwhole
  have hcol : k.column ∈ r.names := Schema.mem_names_of_typeOf htype
  have hc : ∀ i ∈ p.positions, (r.cell k.column i).comparable?.isSome = true := by
    simpa using harranged.comparable
  have hlen : (Peers.spans (p.positions.map fun i => [r.sortCell k.column i])).length =
      (p.positions.map (r.cell k.column)).length := by
    rw [Peers.length_spans, List.length_map, List.length_map]
  rw [spans_eq_offsetSpans hin hcol htype hc rfl hoffsets]
  simpa using harranged.offsetSpans_spec hstart hstop hunits hlen harranged.peers_isRun

/-- Days of two readings and of one without a day. -/
def dayMarks : Relation :=
  ⟨⟨[⟨"day", .date, by decide⟩], by decide⟩,
    [[.date ⟨2024, 2, 28, by decide⟩], [.null], [.date ⟨2024, 3, 1, by decide⟩]]⟩

def latestFirst : OrderKey := ⟨"day", .desc, .last⟩

/-- From two days back to the end. -/
def sinceTwoDays : FrameSpec := ⟨.range, .preceding (.whole 2), .unboundedFollowing⟩

theorem range_spans_declared_dayMarks :
    ∃ parts p, Arrangement.positions dayMarks [] [latestFirst] = .ok parts ∧ p ∈ parts ∧
      p.positions.length = 3 ∧ ∃ spans,
        FrameExtent.spans dayMarks.schema [latestFirst]
          (Arrangement.rowsAt dayMarks p.positions) sinceTwoDays = .ok spans ∧
        spans.length = p.positions.length ∧
        ∀ (i : ℕ) s, spans[i]? = some s →
          sinceTwoDays.Spans latestFirst .date (p.positions.map (dayMarks.cell "day")) i s := by
  have hr : dayMarks.WellFormed := by decide
  have hcol : ∀ k ∈ [latestFirst], k.column ∈ dayMarks.names := by decide
  have hnone : ∀ name ∈ ([] : List String), name ∈ dayMarks.names := by simp
  have hparts := Arrangement.positions_eq_ok hnone hcol (hr.sortsBy hcol (by decide)) (by decide)
  have hgroup : dayMarks.groups [] = [⟨[], [0, 1, 2]⟩] := rfl
  have hsize : Binary64.ofInt? 2 = some (.number 2) := by decide +kernel
  have hframe : FrameSpec.make .range (.preceding (.whole 2)) .unboundedFollowing =
      .ok sinceTwoDays := by
    simp [FrameSpec.make, FrameBound.position?, Offset.magnitude?, hsize, FrameBound.isAfter,
      sinceTwoDays]
  refine ⟨_, ⟨[], [0, 1, 2].mergeSort fun i j => !dayMarks.keysBefore [latestFirst] j i⟩, hparts,
    by simp [Relation.arranged, hgroup], by simp, ?_⟩
  exact range_spans_declared hr hnone hparts (by simp [Relation.arranged, hgroup]) rfl hframe rfl
    (by simp [FrameBound.offset?, Offset.Measures, ColumnType.Whole])

end OrderedRelations.FrameExtent
