import OrderedRelations.Proofs.Window.AggregateTypes
import OrderedRelations.Proofs.Window.ArrangedSpans
import OrderedRelations.Proofs.Window.Buckets
import OrderedRelations.Proofs.Window.SpanBounds

/-!
# Results of one partition

Over the rows of one partition every window function answers with one value for each row or
overflows. The values conform to the output type, except for the fallback of a shift, which is
given back as it is.
-/

namespace OrderedRelations

open Result (Yields)

/-- The value that a shift gives beyond the partition. -/
def WindowFunction.fallback? : WindowFunction → Option Value
  | lag _ _ fallback => some fallback
  | lead _ _ fallback => some fallback
  | _ => none

namespace FrameExtent

variable {r : Relation} {orderBy : List OrderKey} {positions : List ℕ} {frame : FrameSpec}

/-- The spans of an accepted frame lie inside the partition, unless they overflow. -/
theorem spans_yields (hr : r.WellFormed) (hin : ∀ i ∈ positions, i < r.size)
    (ho : ∀ k ∈ orderBy, k.column ∈ r.names)
    (hc : ∀ k ∈ orderBy, ∀ i ∈ positions, (r.cell k.column i).comparable?.isSome = true)
    (hmeasures : Window.MeasuresOrder r.schema orderBy frame) :
    Yields (spans r.schema orderBy (Arrangement.rowsAt r positions) frame) fun spans =>
      spans.length = positions.length ∧ ∀ s ∈ spans, s.Within positions.length := by
  by_cases hoffsets : frame.unit = .range ∧ frame.hasOffsets = true
  · obtain ⟨k, type, rfl, htype, hmeasured, hduration⟩ := hmeasures hoffsets.1 hoffsets.2
    have hc : ∀ i ∈ positions, (r.cell k.column i).comparable?.isSome = true := hc k (by simp)
    obtain ⟨hlength, hpeers⟩ := peers_within r k positions
    rw [spans_eq_offsetSpans hin (Schema.mem_names_of_typeOf htype) htype hc hoffsets.1 hoffsets.2]
    simpa using offsetSpans_yields hmeasured hduration (hr.conforms_cells hin htype)
      (List.forall_mem_map.mpr hc) hlength hpeers
  · have hplain : frame.unit = .range → frame.hasOffsets = false := by
      intro hunit
      simpa [hunit] using hoffsets
    obtain ⟨spans, hspans, hlength, hwithin, -⟩ := spans_ordered hin ho hc hplain
    exact .inr ⟨spans, hspans, hlength, hwithin⟩

end FrameExtent

theorem FrameAggregate.inRows_of_within {values : List Value} {s : Span}
    (h : s.Within values.length) : InRows values s := by
  obtain ⟨hfirst, hfirst', -, hstop⟩ := h
  exact ⟨hfirst, max_le hfirst' hstop⟩

namespace Window

theorem length_denseRanks (groups : ℕ) (first : ℤ) (peers : List Span) :
    (denseRanks groups first peers).length = peers.length := by
  induction peers generalizing groups first with
  | nil => rfl
  | cons p rest ih =>
    rw [denseRanks]
    split <;> simp [ih]

/-- A shift gives values of the partition and its fallback. -/
theorem mem_shift {values : List Value} {step : ℤ} {fallback v : Value}
    (h : v ∈ shift values step fallback) : v ∈ values ∨ v = fallback := by
  obtain ⟨i, -, rfl⟩ := List.mem_map.mp h
  dsimp only
  split
  · exact .inr rfl
  · cases hv : values[((i : ℤ) + step).toNat]? with
    | none => exact .inr rfl
    | some w => exact .inl (List.mem_of_getElem? hv)

/-- Inside a frame that is not empty there is a value at either end. -/
theorem atEnd_mem {values : List Value} {last : Bool} {f : Span} (hf : f.Within values.length)
    (hlt : f.first < f.stop) : ∃ i < values.length, values[i]? = some (atEnd values last f) ∧
      (i : ℤ) = if last then f.stop - 1 else f.first := by
  obtain ⟨hfirst, -, -, hstop⟩ := hf
  have hnonneg : 0 ≤ (if last then f.stop - 1 else f.first) := by split <;> omega
  have hbound : (if last then f.stop - 1 else f.first).toNat < values.length := by split <;> omega
  refine ⟨_, hbound, ?_, Int.toNat_of_nonneg hnonneg⟩
  simp [atEnd, hlt, hbound]

theorem conforms_atEnd {values : List Value} {type : ColumnType} {last : Bool} {f : Span}
    (hf : f.Within values.length) (hvalues : ∀ v ∈ values, v.conforms type = true) :
    (atEnd values last f).conforms type = true := by
  by_cases hlt : f.first < f.stop
  · obtain ⟨i, -, hi, -⟩ := atEnd_mem hf hlt
    exact hvalues _ (List.mem_of_getElem? hi)
  · simp [atEnd, hlt, Value.conforms]

variable {r : Relation} {spec : WindowSpec} {frame : Option FrameSpec} {type : ColumnType}
  {positions : List ℕ}

theorem exists_outputType (hvalid : Validated r.schema spec frame) :
    ∃ type, spec.function.outputType r.schema = .ok type := by
  have hcolumn : ∀ name, spec.function.column? = some name → ∃ type, r.schema.typeOf name = .ok type :=
    fun name hname => Relation.exists_typeOf (hvalid.argument name hname)
  cases hfunction : spec.function with
  | aggregate kind column =>
    rw [hfunction] at hcolumn
    cases kind with
    | count => exact ⟨_, rfl⟩
    | avg => exact ⟨_, rfl⟩
    | _ => exact hcolumn column rfl
  | lag column offset fallback => exact hcolumn column (by rw [hfunction]; rfl)
  | lead column offset fallback => exact hcolumn column (by rw [hfunction]; rfl)
  | firstValue column => exact hcolumn column (by rw [hfunction]; rfl)
  | lastValue column => exact hcolumn column (by rw [hfunction]; rfl)
  | _ => exact ⟨_, rfl⟩

theorem Validated.exists_source (hvalid : Validated r.schema spec frame) {kind : AggregateKind}
    {column : String} (hfunction : spec.function = .aggregate kind column) :
    ∃ source, r.schema.typeOf column = .ok source ∧
      (kind = .sum ∨ kind = .avg → source.isNumeric = true) := by
  obtain ⟨source, hsource⟩ :=
    Relation.exists_typeOf (hvalid.argument column (by rw [hfunction]; rfl))
  refine ⟨source, hsource, fun hkind => ?_⟩
  obtain ⟨source', hsource', hnumeric⟩ := hvalid.numeric kind column hfunction hkind
  cases hsource.symm.trans hsource'
  exact hnumeric

/-- An aggregate is evaluated to its result type. -/
theorem resultType_of_outputType {schema : Schema} {kind : AggregateKind} {column : String}
    {source : ColumnType} (hsource : schema.typeOf column = .ok source)
    (htype : (WindowFunction.aggregate kind column).outputType schema = .ok type) :
    kind.resultType source = type := by
  cases kind with
  | count => cases htype; rfl
  | avg => cases htype; rfl
  | _ => exact Except.ok.inj (hsource.symm.trans htype)

theorem columnOf_eq {name : String} (hin : ∀ i ∈ positions, i < r.size) (h : name ∈ r.names) :
    columnOf r.schema name (Arrangement.rowsAt r positions) = .ok (positions.map (r.cell name)) := by
  obtain ⟨i, hi⟩ := Schema.exists_indexOf h
  rw [columnOf, Schema.indexOf_eq_ok.mpr hi, FrameExtent.rowsAt_eq_map hin]
  simp [Relation.cell, Schema.cell, hi, Arrangement.valueAt]

theorem peersOf_eq {orderBy : List OrderKey} (hin : ∀ i ∈ positions, i < r.size)
    (ho : ∀ k ∈ orderBy, k.column ∈ r.names)
    (hc : ∀ k ∈ orderBy, ∀ i ∈ positions, (r.cell k.column i).comparable?.isSome = true) :
    peersOf r.schema orderBy (Arrangement.rowsAt r positions) =
      .ok (Peers.spans (positions.map fun i => orderBy.map fun k => r.sortCell k.column i)) := by
  rw [peersOf, FrameExtent.keys_eq hin ho, Result.ok_bind, FrameExtent.bounds_eq hc]

/-- A value for each of `n` rows, of the output type unless it is the fallback. -/
structure Answers (function : WindowFunction) (type : ColumnType) (n : ℕ) (values : List Value) :
    Prop where
  length : values.length = n
  typed : ∀ v ∈ values, v.conforms type = true ∨ function.fallback? = some v

private theorem answers_counts {function : WindowFunction} {n : ℕ} {α : Type} {xs : List α}
    {f : α → ℤ} (hlength : xs.length = n) :
    Answers function .integer n (xs.map fun x => .int (f x)) := by
  refine ⟨by rw [List.length_map, hlength], ?_⟩
  intro v hv
  obtain ⟨x, -, rfl⟩ := List.mem_map.mp hv
  exact .inl rfl

private theorem answers_shift {function : WindowFunction} {fallback : Value}
    (hfallback : function.fallback? = some fallback) {values : List Value}
    (hvalues : ∀ v ∈ values, v.conforms type = true) (step : ℤ) :
    Answers function type values.length (shift values step fallback) := by
  refine ⟨by simp [shift], ?_⟩
  intro v hv
  rcases mem_shift hv with hv | rfl
  · exact .inl (hvalues v hv)
  · exact .inr hfallback

private theorem answers_atEnd {function : WindowFunction} {values : List Value}
    (hvalues : ∀ v ∈ values, v.conforms type = true) {spans : List Span}
    (hlength : spans.length = values.length) (hspans : ∀ s ∈ spans, s.Within values.length)
    (last : Bool) : Answers function type values.length (spans.map (atEnd values last)) := by
  refine ⟨by rw [List.length_map, hlength], ?_⟩
  intro v hv
  obtain ⟨s, hs, rfl⟩ := List.mem_map.mp hv
  exact .inl (conforms_atEnd (hspans s hs) hvalues)

private theorem answers_overFrames {function : WindowFunction} {kind : AggregateKind}
    {values : List Value} (hvalues : ∀ v ∈ values, v.conforms type = true)
    (hnumeric : kind = .sum ∨ kind = .avg → type.isNumeric = true) {n : ℕ}
    (hn : values.length = n) {spans : List Span} (hlength : spans.length = n)
    (hspans : ∀ s ∈ spans, s.Within n) :
    Yields (FrameAggregate.overFrames kind values spans)
      (Answers function (kind.resultType type) n) := by
  have hrows : ∀ s ∈ spans, FrameAggregate.InRows values s :=
    fun s hs => FrameAggregate.inRows_of_within (hn ▸ hspans s hs)
  refine (FrameAggregate.overFrames_yields hvalues hnumeric hrows).mono fun results hresults => ?_
  exact ⟨hresults.1.trans hlength, fun v hv => .inl (hresults.2 v hv)⟩

/-- Every window function answers over the rows of a partition, unless it overflows. -/
theorem evaluateRows_yields (hr : r.WellFormed) (hvalid : Validated r.schema spec frame)
    (htype : spec.function.outputType r.schema = .ok type) (hin : ∀ i ∈ positions, i < r.size)
    (hc : ∀ k ∈ spec.orderBy, ∀ i ∈ positions, (r.cell k.column i).comparable?.isSome = true) :
    Yields (evaluateRows r.schema spec (frame.getD spec.defaultFrame)
      (Arrangement.rowsAt r positions)) (Answers spec.function type positions.length) := by
  have hrows : (Arrangement.rowsAt r positions).length = positions.length := by
    rw [FrameExtent.rowsAt_eq_map hin, List.length_map]
  have hpeers := peersOf_eq hin hvalid.orderColumns hc
  have hpeersLength : (Peers.spans
      (positions.map fun i => spec.orderBy.map fun k => r.sortCell k.column i)).length =
        positions.length := by
    rw [Peers.length_spans, List.length_map]
  have hcolumn : ∀ name source, spec.function.column? = some name →
      r.schema.typeOf name = .ok source →
        columnOf r.schema name (Arrangement.rowsAt r positions) =
          .ok (positions.map (r.cell name)) ∧
        ∀ v ∈ positions.map (r.cell name), v.conforms source = true := by
    intro name source hname hsource
    exact ⟨columnOf_eq hin (hvalid.argument name hname), hr.conforms_cells hin hsource⟩
  have hspans := FrameExtent.spans_yields hr hin hvalid.orderColumns hc hvalid.measuresOrder
  unfold evaluateRows
  cases hfunction : spec.function with
  | rowNumber =>
    rw [hfunction] at htype
    cases htype
    exact .ok (answers_counts (by simp [hrows]))
  | rank =>
    rw [hfunction] at htype
    cases htype
    simp only [hpeers, Result.ok_bind]
    exact .ok (answers_counts hpeersLength)
  | denseRank =>
    rw [hfunction] at htype
    cases htype
    simp only [hpeers, Result.ok_bind]
    exact .ok (answers_counts (by rw [length_denseRanks, hpeersLength]))
  | ntile buckets positive =>
    rw [hfunction] at htype
    cases htype
    exact .ok (answers_counts (by rw [length_bucketsOf _ positive, hrows]))
  | lag column offset fallback =>
    rw [hfunction] at htype hcolumn
    obtain ⟨hvalues, htyped⟩ := hcolumn column type rfl htype
    simp only [hvalues, Result.ok_bind]
    simpa using Yields.ok (answers_shift rfl htyped (-(offset : ℤ)))
  | lead column offset fallback =>
    rw [hfunction] at htype hcolumn
    obtain ⟨hvalues, htyped⟩ := hcolumn column type rfl htype
    simp only [hvalues, Result.ok_bind]
    simpa using Yields.ok (answers_shift rfl htyped offset)
  | firstValue column =>
    rw [hfunction] at htype hcolumn
    obtain ⟨hvalues, htyped⟩ := hcolumn column type rfl htype
    simp only [hvalues, Result.ok_bind]
    refine hspans.bind fun spans hspan => .ok ?_
    simpa using answers_atEnd htyped (by simpa using hspan.1) (by simpa using hspan.2) false
  | lastValue column =>
    rw [hfunction] at htype hcolumn
    obtain ⟨hvalues, htyped⟩ := hcolumn column type rfl htype
    simp only [hvalues, Result.ok_bind]
    refine hspans.bind fun spans hspan => .ok ?_
    simpa using answers_atEnd htyped (by simpa using hspan.1) (by simpa using hspan.2) true
  | aggregate kind column =>
    obtain ⟨source, hsource, hnumeric⟩ := hvalid.exists_source hfunction
    rw [hfunction] at htype hcolumn
    obtain ⟨hvalues, htyped⟩ := hcolumn column source rfl hsource
    simp only [hvalues, Result.ok_bind]
    refine hspans.bind fun spans hspan => ?_
    rw [← resultType_of_outputType hsource htype]
    exact answers_overFrames htyped hnumeric (by simp) hspan.1 hspan.2
  | countRows =>
    rw [hfunction] at htype
    cases htype
    refine hspans.bind fun spans hspan => ?_
    have htyped : ∀ v ∈ List.replicate positions.length (Value.bool true),
        v.conforms .boolean = true := by
      intro v hv
      obtain ⟨-, rfl⟩ := List.mem_replicate.mp hv
      rfl
    rw [hrows]
    exact answers_overFrames htyped (by simp) (by simp) hspan.1 hspan.2

end Window
end OrderedRelations
