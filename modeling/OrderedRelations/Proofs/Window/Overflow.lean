import OrderedRelations.Proofs.Window.PartitionResults
import OrderedRelations.Proofs.Window.Totals

/-!
# What overflows

An evaluation overflows only over values that are out of range: a moment that leaves the calendar
in UTC, a whole number that no double reaches beside a double, or an exact sum or mean beyond the
doubles.
-/

namespace OrderedRelations

/-- A double, and a whole number that no double reaches: they have no sum and no difference. -/
def Quantity.Apart (a b : Quantity) : Prop :=
  a.isWhole ≠ b.isWhole ∧ (a.toBinary64? = none ∨ b.toBinary64? = none)

theorem Quantity.apart_of_combine? {onWhole : ℤ → ℤ → ℤ}
    {onReal : Binary64 → Binary64 → Binary64} {a b : Quantity}
    (h : combine? onWhole onReal a b = none) : a.Apart b := by
  cases a with
  | whole m =>
    cases b with
    | whole n => cases h
    | real y =>
      refine ⟨by simp [isWhole], .inl ?_⟩
      cases hm : Binary64.ofInt? m with
      | none => exact hm
      | some x => simp [combine?, toBinary64?, hm] at h
  | real x =>
    cases b with
    | whole n =>
      refine ⟨by simp [isWhole], .inr ?_⟩
      cases hn : Binary64.ofInt? n with
      | none => exact hn
      | some y => simp [combine?, toBinary64?, hn] at h
    | real y => cases h

namespace FrameExtent

theorem apart_of_target {type : ColumnType} {c : Quantity} {backward : Bool} {o : Offset}
    (h : target type c backward o = .error .overflow) :
    ∃ q, (o.inUnitsOf type).quantity? = some q ∧ c.Apart q := by
  rw [target, Result.bind_eq_error] at h
  rcases h with h | ⟨q, hq, h⟩
  · cases (Result.orElse_eq_error.mp h).2
  · refine ⟨q, Result.orElse_eq_ok.mp hq, ?_⟩
    have hnone := (Result.orElse_eq_error.mp h).1
    split at hnone
    · exact Quantity.apart_of_combine? hnone
    · exact Quantity.apart_of_combine? hnone

/-- A row and a bound whose coordinate and distance cannot be brought together. -/
def RangeView.Unreachable (v : RangeView) (i : ℕ) (bound : FrameBound) : Prop :=
  ∃ c o q, v.coordinate? i = some c ∧ bound.offset? = some o ∧
    (o.inUnitsOf v.type).quantity? = some q ∧ c.Apart q

theorem RangeView.unreachable_of_first {v : RangeView} {i : ℕ} {p : Span} {bound : FrameBound}
    (h : v.first i p bound = .error .overflow) : v.Unreachable i bound := by
  unfold RangeView.first at h
  split at h
  · cases h
  · rename_i o c hc
    obtain ⟨q, hq, hapart⟩ := apart_of_target (Result.map_eq_error.mp h)
    exact ⟨c, o, q, hc, rfl, hq, hapart⟩
  · rename_i o c hc
    obtain ⟨q, hq, hapart⟩ := apart_of_target (Result.map_eq_error.mp h)
    exact ⟨c, o, q, hc, rfl, hq, hapart⟩
  · cases h

theorem RangeView.unreachable_of_stop {v : RangeView} {i : ℕ} {p : Span} {bound : FrameBound}
    (h : v.stop i p bound = .error .overflow) : v.Unreachable i bound := by
  unfold RangeView.stop at h
  split at h
  · cases h
  · rename_i o c hc
    obtain ⟨q, hq, hapart⟩ := apart_of_target (Result.map_eq_error.mp h)
    exact ⟨c, o, q, hc, rfl, hq, hapart⟩
  · rename_i o c hc
    obtain ⟨q, hq, hapart⟩ := apart_of_target (Result.map_eq_error.mp h)
    exact ⟨c, o, q, hc, rfl, hq, hapart⟩
  · cases h

theorem RangeView.coordinate?_mem {v : RangeView} {i : ℕ} {c : Quantity}
    (h : v.coordinate? i = some c) : c ∈ v.coordinates := by
  unfold RangeView.coordinate? at h
  split at h
  · cases h
  · exact Array.mem_of_getElem? h

/-- Offset spans overflow where the coordinate of some value and the distance of a bound cannot be
brought together. -/
theorem apart_of_offsetSpans {k : OrderKey} {type : ColumnType} {values : List Value}
    {peers : List Span} {frame : FrameSpec} (hmeasured : type.isMeasurable = true)
    (htyped : ∀ v ∈ values, v.conforms type = true)
    (hc : ∀ v ∈ values, v.comparable?.isSome = true)
    (h : offsetSpans k type values peers frame = .error .overflow) :
    ∃ v ∈ values, ∃ c o q, v.quantityAt type = .ok c ∧
      (frame.start.offset? = some o ∨ frame.stop.offset? = some o) ∧
      (o.inUnitsOf type).quantity? = some q ∧ (if k.descending then c.neg else c).Apart q := by
  obtain ⟨coordinates, hcoordinates⟩ :=
    exists_signedCoordinates hmeasured htyped hc k.descending
  rw [offsetSpans, hcoordinates, Result.ok_bind] at h
  obtain ⟨⟨p, i⟩, -, hspan⟩ := Result.exists_error_of_mapM h
  have hbound : ∃ bound, (bound = frame.start ∨ bound = frame.stop) ∧
      RangeView.Unreachable ⟨type, values, front values, coordinates.toArray, peers⟩ i bound := by
    rcases Result.bind_eq_error.mp hspan with hfirst | ⟨first, -, hspan⟩
    · exact ⟨_, .inl rfl, RangeView.unreachable_of_first hfirst⟩
    · rcases Result.bind_eq_error.mp hspan with hstop | ⟨stop, -, hspan⟩
      · exact ⟨_, .inr rfl, RangeView.unreachable_of_stop hstop⟩
      · cases hspan
  obtain ⟨bound, hbound, c, o, q, hc, ho, hq, hapart⟩ := hbound
  have hmem : c ∈ coordinates := by simpa using RangeView.coordinate?_mem hc
  obtain ⟨v, hv, hsigned⟩ := Result.exists_source_of_mapM hcoordinates hmem
  obtain ⟨c, hquantity, hsigned⟩ := Result.bind_eq_ok.mp hsigned
  cases hsigned
  refine ⟨v, (List.mem_filter.mp hv).1, c, o, q, hquantity, ?_, hq, hapart⟩
  rcases hbound with rfl | rfl
  · exact .inl ho
  · exact .inr ho

variable {r : Relation} {orderBy : List OrderKey} {positions : List ℕ} {frame : FrameSpec}

theorem apart_of_spans (hr : r.WellFormed) (hin : ∀ i ∈ positions, i < r.size)
    (ho : ∀ k ∈ orderBy, k.column ∈ r.names)
    (hc : ∀ k ∈ orderBy, ∀ i ∈ positions, (r.cell k.column i).comparable?.isSome = true)
    (hmeasures : Window.MeasuresOrder r.schema orderBy frame)
    (h : spans r.schema orderBy (Arrangement.rowsAt r positions) frame = .error .overflow) :
    ∃ k type, orderBy = [k] ∧ r.schema.typeOf k.column = .ok type ∧ ∃ i ∈ positions, ∃ c o q,
      (r.cell k.column i).quantityAt type = .ok c ∧
      (frame.start.offset? = some o ∨ frame.stop.offset? = some o) ∧
      (o.inUnitsOf type).quantity? = some q ∧ (if k.descending then c.neg else c).Apart q := by
  by_cases hoffsets : frame.unit = .range ∧ frame.hasOffsets = true
  · obtain ⟨k, type, rfl, htype, hmeasured, -⟩ := hmeasures hoffsets.1 hoffsets.2
    have hc : ∀ i ∈ positions, (r.cell k.column i).comparable?.isSome = true := hc k (by simp)
    have hcolumn := Schema.mem_names_of_typeOf htype
    rw [spans_eq_offsetSpans hin hcolumn htype hc hoffsets.1 hoffsets.2] at h
    obtain ⟨v, hv, hcause⟩ := apart_of_offsetSpans hmeasured (hr.conforms_cells hin htype)
      (List.forall_mem_map.mpr hc) h
    obtain ⟨i, hi, rfl⟩ := List.mem_map.mp hv
    exact ⟨k, type, rfl, htype, i, hi, hcause⟩
  · have hplain : frame.unit = .range → frame.hasOffsets = false := by
      intro hunit
      simpa [hunit] using hoffsets
    obtain ⟨spans, hspans, -⟩ := spans_ordered hin ho hc hplain
    rw [hspans] at h
    cases h

end FrameExtent

namespace RunningSum

theorem ofRat?_of_sum {s : RunningSum} (h : s.sum = .error .overflow) :
    Binary64.ofRat? s.total = none := by
  unfold sum at h
  split at h
  · cases h
  · split at h
    · cases h
    · split at h
      · cases h
      · exact (Result.orElse_eq_error.mp (Result.map_eq_error.mp h)).1

theorem ofRat?_of_mean {s : RunningSum} (h : s.mean = .error .overflow) :
    Binary64.ofRat? (s.total / mkRat s.values 1) = none := by
  unfold mean at h
  split at h
  · cases h
  · split at h
    · cases h
    · exact (Result.orElse_eq_error.mp (Result.map_eq_error.mp h)).1

end RunningSum

namespace FrameAggregate

variable {values : List Value} {kind : AggregateKind} {type : ColumnType}

/-- The exact sum or mean of a stretch that no double reaches. -/
def TooLarge (kind : AggregateKind) (stretch : List Value) : Prop :=
  (kind = .sum ∧ Binary64.ofRat? (exactSum stretch) = none) ∨
    (kind = .avg ∧ Binary64.ofRat? (exactSum stretch / valueCount stretch) = none)

/-- A frame overflows where the sum or mean of its values is too large. -/
theorem tooLarge_of_ofFrame (hfits : Fits values kind) {f : Span} (hf : InRows values f)
    (h : ofFrame values (.fresh kind) f = .error .overflow) : TooLarge kind (framed values f) := by
  have hfirst : f.first ≤ stop f := Int.le_max_left _ _
  obtain ⟨acc, henter, hacc⟩ : ∃ acc,
      enter values ((stop f).toNat - f.first.toNat) f.first.toNat (.fresh kind) = .ok acc ∧
        Accumulator.Admits values kind acc :=
    exists_enter (Accumulator.admits_fresh hfits) (by have := hf.2; omega)
  rw [ofFrame_eq hf, henter, Result.ok_bind] at h
  have hkind : kind = .sum ∨ kind = .avg := by
    rcases hacc.result_eq with ⟨v, hv⟩ | ⟨-, hkind⟩
    · rw [hv] at h
      cases h
    · exact hkind
  rcases hkind with rfl | rfl
  · obtain ⟨t, rfl, htotal, -⟩ := enter_framed Accumulator.sum (fun _ _ _ => rfl) henter
    have hnone := RunningSum.ofRat?_of_sum h
    rw [htotal] at hnone
    exact .inl ⟨rfl, hnone⟩
  · obtain ⟨t, rfl, htotal, hcount⟩ := enter_framed Accumulator.mean (fun _ _ _ => rfl) henter
    have hnone := RunningSum.ofRat?_of_mean h
    rw [htotal, hcount] at hnone
    exact .inr ⟨rfl, by simpa [Rat.mkRat_eq_div] using hnone⟩

/-- The values of a column fit an aggregate, unless an extreme meets one without a comparable
form. -/
theorem fits_or_leaves (hvalues : ∀ v ∈ values, v.conforms type = true)
    (hnumeric : kind = .sum ∨ kind = .avg → type.isNumeric = true) :
    Fits values kind ∨ (kind = .min ∨ kind = .max) ∧ ∃ v ∈ values, v.comparable? = none := by
  have hnumbers : type.isNumeric = true → ∀ v ∈ values,
      v.isNull = true ∨ v.quantity?.isSome = true := by
    intro hnumeric v hv
    have htyped := hvalues v hv
    cases v <;> cases type <;>
      simp [Value.conforms, ColumnType.isNumeric, Value.isNull, Value.quantity?] at htyped hnumeric ⊢
  have hextremes : (∃ type, ∀ v ∈ values, v.conforms type = true ∧ v.comparable?.isSome = true) ∨
      ∃ v ∈ values, v.comparable? = none := by
    by_cases hc : ∃ v ∈ values, v.comparable? = none
    · exact .inr hc
    · refine .inl ⟨type, fun v hv => ⟨hvalues v hv, ?_⟩⟩
      rw [Option.isSome_iff_ne_none]
      exact fun hnone => hc ⟨v, hv, hnone⟩
  cases kind with
  | sum => exact .inl (hnumbers (hnumeric (.inl rfl)))
  | avg => exact .inl (hnumbers (hnumeric (.inr rfl)))
  | count => exact .inl trivial
  | min => exact hextremes.imp id fun h => ⟨.inl rfl, h⟩
  | max => exact hextremes.imp id fun h => ⟨.inr rfl, h⟩

theorem tooLarge_of_overFrames (hfits : Fits values kind) {frames : List Span}
    (hframes : ∀ f ∈ frames, InRows values f)
    (h : overFrames kind values frames = .error .overflow) :
    ∃ f ∈ frames, TooLarge kind (framed values f) := by
  rw [overFrames_eq_recompute hfits hframes] at h
  obtain ⟨f, hf, hframe⟩ := Result.exists_error_of_mapM h
  exact ⟨f, hf, tooLarge_of_ofFrame hfits (hframes f hf) hframe⟩

theorem count_ne_overflow {frames : List Span} (hframes : ∀ f ∈ frames, InRows values f) :
    overFrames .count values frames ≠ .error .overflow := by
  intro h
  have hfits : Fits values .count := trivial
  obtain ⟨f, -, hlarge⟩ := tooLarge_of_overFrames hfits hframes h
  rcases hlarge with ⟨hkind, -⟩ | ⟨hkind, -⟩
  · cases hkind
  · cases hkind

end FrameAggregate

namespace Window

/-- What is out of range where a specification cannot be evaluated. -/
inductive OutOfRange (r : Relation) (spec : WindowSpec) (frame : FrameSpec) : Prop
  /-- A moment to order by that leaves the calendar in UTC. -/
  | moment {k : OrderKey} {i : ℕ} (hk : k ∈ spec.orderBy) (hi : i < r.size)
      (h : (r.cell k.column i).comparable? = none)
  /-- Such a moment below a minimum or a maximum. -/
  | extreme {kind : AggregateKind} {column : String} {i : ℕ}
      (hfunction : spec.function = .aggregate kind column) (hkind : kind = .min ∨ kind = .max)
      (hi : i < r.size) (h : (r.cell column i).comparable? = none)
  /-- A range offset that cannot be added to the coordinate of some row. -/
  | offset {k : OrderKey} {type : ColumnType} {i : ℕ} {c q : Quantity} {o : Offset}
      (horder : spec.orderBy = [k]) (htype : r.schema.typeOf k.column = .ok type) (hi : i < r.size)
      (hc : (r.cell k.column i).quantityAt type = .ok c)
      (ho : frame.start.offset? = some o ∨ frame.stop.offset? = some o)
      (hq : (o.inUnitsOf type).quantity? = some q)
      (h : (if k.descending then c.neg else c).Apart q)
  /-- A sum or a mean over the frame of some row of a partition. -/
  | total {kind : AggregateKind} {column : String} {parts : List Partition} {p : Partition}
      {frames : List Span} {f : Span} (hfunction : spec.function = .aggregate kind column)
      (hparts : Arrangement.positions r spec.partitionBy spec.orderBy = .ok parts) (hp : p ∈ parts)
      (hframes : FrameExtent.spans r.schema spec.orderBy (Arrangement.rowsAt r p.positions) frame =
        .ok frames) (hf : f ∈ frames)
      (h : FrameAggregate.TooLarge kind
        (FrameAggregate.framed (p.positions.map (r.cell column)) f))

variable {r : Relation} {spec : WindowSpec} {frame : Option FrameSpec}

theorem outOfRange_of_spans (hr : r.WellFormed) (hvalid : Validated r.schema spec frame)
    {positions : List ℕ} (hin : ∀ i ∈ positions, i < r.size)
    (hc : ∀ k ∈ spec.orderBy, ∀ i ∈ positions, (r.cell k.column i).comparable?.isSome = true)
    (h : FrameExtent.spans r.schema spec.orderBy (Arrangement.rowsAt r positions)
      (frame.getD spec.defaultFrame) = .error .overflow) :
    OutOfRange r spec (frame.getD spec.defaultFrame) := by
  obtain ⟨k, type, horder, htype, i, hi, c, o, q, hquantity, ho, hq, hapart⟩ :=
    FrameExtent.apart_of_spans hr hin hvalid.orderColumns hc hvalid.measuresOrder h
  exact .offset horder htype (hin i hi) hquantity ho hq hapart

/-- An aggregate over the frames of a partition overflows where its values are out of range. -/
theorem outOfRange_of_aggregate (hr : r.WellFormed) (hvalid : Validated r.schema spec frame)
    {kind : AggregateKind} {column : String} (hfunction : spec.function = .aggregate kind column)
    {parts : List Partition}
    (hparts : Arrangement.positions r spec.partitionBy spec.orderBy = .ok parts) {p : Partition}
    (hp : p ∈ parts) (hin : ∀ i ∈ p.positions, i < r.size) {spans : List Span}
    (hspans : FrameExtent.spans r.schema spec.orderBy (Arrangement.rowsAt r p.positions)
      (frame.getD spec.defaultFrame) = .ok spans)
    (hwithin : ∀ s ∈ spans, s.Within p.positions.length)
    (h : FrameAggregate.overFrames kind (p.positions.map (r.cell column)) spans =
      .error .overflow) : OutOfRange r spec (frame.getD spec.defaultFrame) := by
  obtain ⟨source, hsource, hnumeric⟩ := hvalid.exists_source hfunction
  have htyped := hr.conforms_cells hin hsource
  have hrows : ∀ s ∈ spans, FrameAggregate.InRows (p.positions.map (r.cell column)) s := by
    intro s hs
    exact FrameAggregate.inRows_of_within (by simpa using hwithin s hs)
  rcases FrameAggregate.fits_or_leaves htyped hnumeric with hfits | ⟨hkind, v, hv, hnone⟩
  · obtain ⟨f, hf, hlarge⟩ := FrameAggregate.tooLarge_of_overFrames hfits hrows h
    exact .total hfunction hparts hp hspans hf hlarge
  · obtain ⟨i, hi, rfl⟩ := List.mem_map.mp hv
    exact .extreme hfunction hkind (hin i hi) hnone

theorem outOfRange_of_evaluateRows (hr : r.WellFormed) (hvalid : Validated r.schema spec frame)
    {parts : List Partition}
    (hparts : Arrangement.positions r spec.partitionBy spec.orderBy = .ok parts) {p : Partition}
    (hp : p ∈ parts) (hin : ∀ i ∈ p.positions, i < r.size)
    (hc : ∀ k ∈ spec.orderBy, ∀ i ∈ p.positions, (r.cell k.column i).comparable?.isSome = true)
    (h : evaluateRows r.schema spec (frame.getD spec.defaultFrame)
      (Arrangement.rowsAt r p.positions) = .error .overflow) :
    OutOfRange r spec (frame.getD spec.defaultFrame) := by
  have hpeers := peersOf_eq hin hvalid.orderColumns hc
  have hcolumn : ∀ name, spec.function.column? = some name →
      columnOf r.schema name (Arrangement.rowsAt r p.positions) =
        .ok (p.positions.map (r.cell name)) :=
    fun name hname => columnOf_eq hin (hvalid.argument name hname)
  have hspans := FrameExtent.spans_yields hr hin hvalid.orderColumns hc hvalid.measuresOrder
  have hover := outOfRange_of_spans hr hvalid hin hc
  unfold evaluateRows at h
  cases hfunction : spec.function with
  | rowNumber => simp [hfunction] at h
  | rank => simp [hfunction, hpeers] at h
  | denseRank => simp [hfunction, hpeers] at h
  | ntile buckets positive => simp [hfunction] at h
  | lag column offset fallback =>
    simp [hfunction, hcolumn column (by rw [hfunction]; rfl)] at h
  | lead column offset fallback =>
    simp [hfunction, hcolumn column (by rw [hfunction]; rfl)] at h
  | firstValue column =>
    simp only [hfunction, hcolumn column (by rw [hfunction]; rfl), Result.ok_bind] at h
    rcases Result.bind_eq_error.mp h with h | ⟨spans, -, h⟩
    · exact hover h
    · cases h
  | lastValue column =>
    simp only [hfunction, hcolumn column (by rw [hfunction]; rfl), Result.ok_bind] at h
    rcases Result.bind_eq_error.mp h with h | ⟨spans, -, h⟩
    · exact hover h
    · cases h
  | aggregate kind column =>
    simp only [hfunction, hcolumn column (by rw [hfunction]; rfl), Result.ok_bind] at h
    rcases Result.bind_eq_error.mp h with h | ⟨spans, heq, h⟩
    · exact hover h
    · exact outOfRange_of_aggregate hr hvalid hfunction hparts hp hin heq (hspans.of_ok heq).2 h
  | countRows =>
    simp only [hfunction] at h
    rcases Result.bind_eq_error.mp h with h | ⟨spans, heq, h⟩
    · exact hover h
    · refine absurd h (FrameAggregate.count_ne_overflow fun s hs => ?_)
      refine FrameAggregate.inRows_of_within ?_
      simpa [FrameExtent.rowsAt_eq_map hin] using (hspans.of_ok heq).2 s hs

/-- Where evaluation overflows, something is out of range. -/
theorem outOfRange_of_evaluate (hr : r.WellFormed) (hv : validate r.schema spec = .ok frame)
    (hnan : r.NaNFree spec.orderBy) (h : evaluate r spec = .error .overflow) :
    OutOfRange r spec (frame.getD spec.defaultFrame) := by
  have hvalid := validate_eq_ok hv
  by_cases hc : r.Comparable spec.orderBy
  · have hparts := Arrangement.positions_eq_ok hvalid.partitionColumns hvalid.orderColumns
      (hr.sortsBy hvalid.orderColumns hnan) hc
    rw [evaluate, hv, Result.ok_bind, hparts, Result.ok_bind] at h
    rcases Result.bind_eq_error.mp h with h | ⟨placed, -, h⟩
    · obtain ⟨p, hp, h⟩ := Result.exists_error_of_mapM h
      have hin := Arrangement.lt_size_of_arranged hp
      rcases Result.bind_eq_error.mp h with h | ⟨results, -, h⟩
      · exact outOfRange_of_evaluateRows hr hvalid hparts hp hin
          (fun k hk i hi => hc k hk i (hin i hi)) h
      · cases h
    · cases h
  · obtain ⟨k, hk, i, hi, hnone⟩ : ∃ k ∈ spec.orderBy, ∃ i < r.size,
        (r.cell k.column i).comparable? = none := by
      simpa [Relation.Comparable] using hc
    exact .moment hk hi hnone

end Window
end OrderedRelations
