import OrderedRelations.Proofs.Window.RangeArrangement
import OrderedRelations.Proofs.Window.SpanOrder
import OrderedRelations.Proofs.Window.Validation

/-!
# Bounds of spans

Beside every column that an accepted frame measures, doubles included, each span lies inside its
partition. Computing it can only overflow: every value that is not null has its coordinate, and
every offset its distance.
-/

namespace OrderedRelations

open Result (Yields)

/-- A cell of a measured column has a place on its number line. -/
theorem Value.exists_quantityAt {type : ColumnType} (hmeasured : type.isMeasurable = true) {v : Value}
    (hv : v.conforms type = true) (hnull : v.isNull = false) (hc : v.comparable?.isSome = true) :
    ∃ q, v.quantityAt type = .ok q := by
  cases v with
  | int n =>
    obtain rfl : type = .integer := by simpa [conforms] using hv
    exact ⟨.whole n, rfl⟩
  | float x =>
    obtain rfl : type = .float := by simpa [conforms] using hv
    exact ⟨.real x, rfl⟩
  | date d =>
    obtain rfl : type = .date := by simpa [conforms] using hv
    exact ⟨.whole d.ordinal, rfl⟩
  | datetime t =>
    obtain rfl : type = .datetime := by simpa [conforms] using hv
    exact ⟨_, quantityAt_eq (.inr (.inr rfl)) hv hnull hc⟩
  | null => simp [isNull] at hnull
  | _ => cases type <;> simp [conforms, ColumnType.isMeasurable] at hv hmeasured

/-- Only durations beside numbers have no distance. -/
theorem Offset.exists_quantity {type : ColumnType} (hmeasured : type.isMeasurable = true) {o : Offset}
    (hduration : ∀ m, o = .duration m → type.isNumeric = false) :
    ∃ q, (o.inUnitsOf type).quantity? = some q := by
  cases o with
  | whole n => cases type <;> exact ⟨_, rfl⟩
  | real x => cases type <;> exact ⟨_, rfl⟩
  | duration m =>
    have hnumeric := hduration m rfl
    cases type <;> simp [ColumnType.isMeasurable, ColumnType.isNumeric] at hmeasured hnumeric
    · exact ⟨_, rfl⟩
    · exact ⟨_, rfl⟩

namespace FrameExtent

variable {k : OrderKey} {type : ColumnType} {values : List Value} {peers : List Span}
  {frame : FrameSpec}

theorem target_yields (hmeasured : type.isMeasurable = true) {o : Offset}
    (hduration : ∀ m, o = .duration m → type.isNumeric = false) (c : Quantity) (backward : Bool) :
    Yields (target type c backward o) fun _ => True := by
  obtain ⟨q, hq⟩ := o.exists_quantity hmeasured hduration
  rw [target, hq, Result.orElse_some, Result.ok_bind]
  exact (Yields.orElse _).mono fun _ _ => trivial

theorem RangeView.first_yields {v : RangeView} (hmeasured : v.type.isMeasurable = true)
    {bound : FrameBound}
    (hduration : ∀ m, bound.offset? = some (.duration m) → v.type.isNumeric = false) (i : ℕ)
    (p : Span) : Yields (v.first i p bound) fun _ => True := by
  unfold RangeView.first
  split
  · exact .ok trivial
  · exact (target_yields hmeasured (fun m hm => hduration m (congrArg some hm)) _ _).map
      fun _ _ => trivial
  · exact (target_yields hmeasured (fun m hm => hduration m (congrArg some hm)) _ _).map
      fun _ _ => trivial
  · exact .ok trivial

theorem RangeView.stop_yields {v : RangeView} (hmeasured : v.type.isMeasurable = true)
    {bound : FrameBound}
    (hduration : ∀ m, bound.offset? = some (.duration m) → v.type.isNumeric = false) (i : ℕ)
    (p : Span) : Yields (v.stop i p bound) fun _ => True := by
  unfold RangeView.stop
  split
  · exact .ok trivial
  · exact (target_yields hmeasured (fun m hm => hduration m (congrArg some hm)) _ _).map
      fun _ _ => trivial
  · exact (target_yields hmeasured (fun m hm => hduration m (congrArg some hm)) _ _).map
      fun _ _ => trivial
  · exact .ok trivial

theorem RangeView.span_yields {v : RangeView} (hmeasured : v.type.isMeasurable = true)
    (hduration : ∀ m, frame.start.offset? = some (.duration m) ∨
      frame.stop.offset? = some (.duration m) → v.type.isNumeric = false)
    (hsize : v.base + v.coordinates.size ≤ v.values.length) (i : ℕ) {p : Span}
    (hp : p.Within v.values.length) : Yields (v.span frame i p) fun s => s.Within v.values.length := by
  have hspan : Yields (v.span frame i p) fun _ => True :=
    (first_yields hmeasured (fun m hm => hduration m (.inl hm)) i p).bind fun _ _ =>
      (stop_yields hmeasured (fun m hm => hduration m (.inr hm)) i p).bind fun _ _ => .ok trivial
  rcases hspan with hspan | ⟨s, hspan, -⟩
  · exact .inl hspan
  · exact .inr ⟨s, hspan, RangeView.span_within hsize hp hspan⟩

theorem length_of_signedCoordinates {descending : Bool} {coordinates : List Quantity}
    (h : signedCoordinates type descending values = .ok coordinates) :
    coordinates.length = (settled values).length :=
  (Result.mapM_eq_ok.mp h).length_eq.symm

theorem exists_signedCoordinates (hmeasured : type.isMeasurable = true)
    (htyped : ∀ v ∈ values, v.conforms type = true)
    (hc : ∀ v ∈ values, v.comparable?.isSome = true) (descending : Bool) :
    ∃ coordinates, signedCoordinates type descending values = .ok coordinates := by
  have heach : ∀ v ∈ settled values, ∃ c, (do
      let c ← v.quantityAt type
      pure (if descending then c.neg else c)) = (.ok c : Result Quantity) ∧ True := by
    intro v hv
    obtain ⟨hmem, hnull⟩ := List.mem_filter.mp hv
    obtain ⟨q, hq⟩ := Value.exists_quantityAt hmeasured (htyped v hmem) (by simpa using hnull)
      (hc v hmem)
    exact ⟨_, by rw [hq]; rfl, trivial⟩
  obtain ⟨coordinates, hcoordinates, -⟩ := Result.exists_mapM heach
  exact ⟨coordinates, hcoordinates⟩

theorem offsetSpans_yields (hmeasured : type.isMeasurable = true)
    (hduration : ∀ m, frame.start.offset? = some (.duration m) ∨
      frame.stop.offset? = some (.duration m) → type.isNumeric = false)
    (htyped : ∀ v ∈ values, v.conforms type = true)
    (hc : ∀ v ∈ values, v.comparable?.isSome = true) (hlength : peers.length = values.length)
    (hwithin : ∀ p ∈ peers, p.Within values.length) :
    Yields (offsetSpans k type values peers frame) fun spans =>
      spans.length = values.length ∧ ∀ s ∈ spans, s.Within values.length := by
  obtain ⟨coordinates, hcoordinates⟩ :=
    exists_signedCoordinates hmeasured htyped hc k.descending
  have hsettled := length_of_signedCoordinates hcoordinates
  have hsize : front values + coordinates.toArray.size ≤ values.length := by
    simpa [hsettled] using front_add_settled_le values
  have heach : ∀ x ∈ peers.zipIdx,
      Yields (RangeView.span ⟨type, values, front values, coordinates.toArray, peers⟩ frame x.2 x.1)
        fun s => s.Within values.length := by
    intro x hx
    have hp : x.1 ∈ peers := List.fst_mem_of_mem_zipIdx hx
    exact RangeView.span_yields hmeasured hduration hsize x.2 (hwithin x.1 hp)
  rw [offsetSpans, hcoordinates, Result.ok_bind]
  refine (Yields.mapM_all heach).mono fun spans hspans => ⟨?_, hspans.2⟩
  rw [hspans.1, List.length_zipIdx, hlength]

end FrameExtent
end OrderedRelations
