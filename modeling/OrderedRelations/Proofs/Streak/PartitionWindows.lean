import OrderedRelations.Proofs.Window.StretchTotals
import OrderedRelations.Proofs.Window.WiderEvaluation

/-!
# Windows along a partition

What numbers, shifts and running sums have for the rows of an arranged partition, from its first row
on. The order cells play no part in it, so an arrangement that sorting leaves unsettled is as good as
any other.
-/

namespace OrderedRelations

/-- How many of the marks up to each one are set. -/
def prefixCounts (marks : List Bool) : List ℕ :=
  (List.range marks.length).map fun k => (marks.take (k + 1)).count true

namespace FrameAggregate

/-- The total of whole numbers is their sum. -/
theorem totalOf_ints {numbers : List ℤ} (hne : numbers ≠ []) :
    totalOf .sum (numbers.map .int) = .ok (.int numbers.sum) := by
  have hone : ∀ n : ℤ, mkRat n 1 = n := fun n => by simp [Rat.mkRat_eq_div]
  have hplus : ∀ s : RunningSum, s.plusAll (numbers.map .int) =
      { s with total := s.total + numbers.sum, values := s.values + numbers.length } := by
    clear hne
    induction numbers with
    | nil => simp [RunningSum.plusAll]
    | cons n rest ih =>
      intro s
      have hstep : (s.plusValue (.int n)).plusAll (rest.map .int) =
          s.plusAll ((n :: rest).map .int) := rfl
      rw [← hstep, ih]
      simp only [RunningSum.plusValue, RunningSum.share?, RunningSum.plus, Option.getD_some, one_mul,
        hone, List.sum_cons, List.length_cons, Int.cast_add, Nat.cast_add, Nat.cast_one, add_zero]
      rw [add_assoc, add_assoc, add_comm 1]
  rw [totalOf, hplus]
  generalize numbers.sum = total
  simp [RunningSum.sum, RunningSum.empty, hne, RunningSum.truncate]

/-- A mark as the number that stands for it. -/
def ofMark (b : Bool) : ℤ := if b then 1 else 0

theorem sum_ofMark (marks : List Bool) : (marks.map ofMark).sum = marks.count true := by
  induction marks with
  | nil => rfl
  | cons b rest ih => cases b <;> simp [ofMark, ih, add_comm]

/-- Running sums of marks count them. -/
theorem running_counts (marks : List Bool) :
    overFrames .sum (marks.map fun b => .int (ofMark b))
        (FrameExtent.rowSpans marks.length .running) =
      .ok ((prefixCounts marks).map fun (n : ℕ) => .int n) := by
  have hfits : Fits (marks.map fun b => Value.int (ofMark b)) .sum := by
    intro v hv
    obtain ⟨b, -, rfl⟩ := List.mem_map.mp hv
    exact .inr rfl
  have hframes : ∀ f ∈ FrameExtent.rowSpans marks.length .running,
      InRows (marks.map fun b => Value.int (ofMark b)) f := fun f hf =>
    inRows_of_within (by simpa using FrameExtent.rowSpans_within _ _ f hf)
  rw [overFrames_eq_totals (.inl rfl) hfits hframes, FrameExtent.rowSpans, prefixCounts,
    List.mapM_map, List.map_map]
  refine Result.mapM_eq_map fun k hk => ?_
  have hlt := List.mem_range.mp hk
  have hstop : (stop (FrameExtent.rowSpan marks.length .running k)).toNat = k + 1 := by
    simp only [stop, FrameExtent.rowSpan, FrameExtent.clamp, FrameSpec.running, FrameExtent.firstRow,
      FrameExtent.stopRow]
    omega
  have hfirst : (FrameExtent.rowSpan marks.length .running k).first.toNat = 0 := by
    simp only [FrameExtent.rowSpan, FrameExtent.clamp, FrameSpec.running, FrameExtent.firstRow]
    omega
  have hframed : framed (marks.map fun b => Value.int (ofMark b))
      (FrameExtent.rowSpan marks.length .running k) =
        ((marks.take (k + 1)).map ofMark).map Value.int := by
    simp [framed, hstop, hfirst, List.map_take, Function.comp_def]
  have hne : (marks.take (k + 1)).map ofMark ≠ [] := by
    simpa using List.ne_nil_of_length_pos (Nat.zero_lt_of_lt hlt)
  simp only [Function.comp_apply, hframed, totalOf_ints hne, sum_ofMark]

end FrameAggregate

namespace Window

variable {r : Relation} {spec : WindowSpec} {partitionBy : List String} {orderBy : List OrderKey}
  {parts : List Partition}

/-- A window whose function answers for every partition answers, and puts these answers where the
rows of the partition stand. -/
theorem exists_evaluate (hr : r.WellFormed) {frame : Option FrameSpec}
    (hv : validate r.schema spec = .ok frame)
    (hparts : Arrangement.positions r spec.partitionBy spec.orderBy = .ok parts)
    (answers : List ℕ → List Value)
    (heach : ∀ p ∈ parts, evaluateRows r.schema spec (frame.getD spec.defaultFrame)
      (Arrangement.rowsAt r p.positions) = .ok (answers p.positions)) :
    ∃ values, evaluate r spec = .ok values ∧ values.length = r.size ∧
      ∀ p ∈ parts, p.positions.map (values[·]?) = (answers p.positions).map some := by
  have hplaced : (parts.mapM fun p => do
      let values ← evaluateRows r.schema spec (frame.getD spec.defaultFrame)
        (Arrangement.rowsAt r p.positions)
      pure (p.positions.zip values)) =
        .ok (parts.map fun p => p.positions.zip (answers p.positions)) :=
    Result.mapM_eq_map fun p hp => by rw [heach p hp]; rfl
  have hvalues : evaluate r spec =
      .ok (scatter r.size (parts.map fun p => p.positions.zip (answers p.positions)).flatten) := by
    rw [evaluate, hv, Result.ok_bind, hparts, Result.ok_bind, hplaced]
    rfl
  obtain ⟨type, htype⟩ := exists_outputType (validate_eq_ok hv)
  obtain ⟨hanswers, hresults⟩ := (evaluate_yields hr hv htype).of_ok hvalues
  refine ⟨_, hvalues, hanswers.length, fun p hp => ?_⟩
  obtain ⟨results, hresults, hplaces⟩ := hresults parts hparts p hp
  rw [heach p hp] at hresults
  cases hresults
  exact hplaces

theorem validate_eq_none {schema : Schema} (hp : ∀ name ∈ spec.partitionBy, name ∈ schema.names)
    (ho : ∀ k ∈ spec.orderBy, k.column ∈ schema.names) (hne : spec.orderBy ≠ [])
    (hneeds : spec.kind.needsOrder = true)
    (hnumeric : requireNumeric schema spec.function = .ok ()) :
    validate schema spec = .ok none := by
  have hsome : spec.orderBy.isEmpty = false := by simpa using hne
  simp [validate, hneeds, hsome, Arrangement.checkColumns_eq_ok hp ho, hnumeric]

section Arranged

variable (hr : r.WellFormed) (hne : orderBy ≠ [])
  (hparts : Arrangement.positions r partitionBy orderBy = .ok parts)
include hr hne hparts

/-- The rows of a partition are numbered from one on. -/
theorem exists_numbering : ∃ values, evaluate r (.numbering partitionBy orderBy) = .ok values ∧
    values.length = r.size ∧ ∀ p ∈ parts, p.positions.map (values[·]?) =
      ((List.range p.positions.length).map fun (k : ℕ) => .int (k + 1 : ℕ)).map some := by
  obtain ⟨hp, ho, -, -⟩ := Arrangement.passed_of_positions hparts
  have hv : validate r.schema (.numbering partitionBy orderBy) = .ok none :=
    validate_eq_none hp ho hne rfl rfl
  refine exists_evaluate hr hv hparts (fun positions =>
    (List.range positions.length).map fun (k : ℕ) => .int (k + 1 : ℕ)) fun p hp => ?_
  have hlength : (Arrangement.rowsAt r p.positions).length = p.positions.length := by
    rw [FrameExtent.rowsAt_eq_map (Arrangement.lt_size_of_positions hparts hp), List.length_map]
  simp only [evaluateRows, WindowSpec.numbering, hlength]

/-- A shift by one row has what stands before each row of a partition, null for the first one. -/
theorem exists_previous {name : String} (hname : name ∈ r.names) :
    ∃ values, evaluate r ⟨.lag name 1 .null, partitionBy, orderBy, none, none⟩ = .ok values ∧
      values.length = r.size ∧ ∀ p ∈ parts, p.positions.map (values[·]?) =
        ((.null :: p.positions.map (r.cell name)).take p.positions.length).map some := by
  obtain ⟨hp, ho, -, -⟩ := Arrangement.passed_of_positions hparts
  obtain ⟨type, htype⟩ := Relation.exists_typeOf hname
  have hv : validate r.schema ⟨.lag name 1 .null, partitionBy, orderBy, none, none⟩ = .ok none :=
    validate_eq_none hp ho hne rfl (by simp [requireNumeric, WindowFunction.column?, htype])
  refine exists_evaluate hr hv hparts (fun positions =>
    (.null :: positions.map (r.cell name)).take positions.length) fun p hp => ?_
  simp only [evaluateRows, columnOf_eq (Arrangement.lt_size_of_positions hparts hp) hname,
    Result.ok_bind, Result.pure_eq_ok, Except.ok.injEq]
  refine List.ext_getElem (by simp [shift]) fun k hk hk' => ?_
  simp only [shift, List.length_map, List.length_range] at hk
  cases k with
  | zero => simp [shift]
  | succ k => simp [shift, Nat.lt_of_succ_lt hk]

/-- A running sum of marks counts them along a partition. -/
theorem exists_runningCount {name : String} (htype : r.schema.typeOf name = .ok .integer)
    {marks : ℕ → Bool} (hmarks : ∀ i < r.size, r.cell name i = .int (FrameAggregate.ofMark (marks i))) :
    ∃ values, evaluate r ⟨.aggregate .sum name, partitionBy, orderBy, some .running, none⟩ =
        .ok values ∧ values.length = r.size ∧ ∀ p ∈ parts, p.positions.map (values[·]?) =
        ((prefixCounts (p.positions.map marks)).map fun (n : ℕ) => Value.int n).map some := by
  obtain ⟨hp, ho, -, -⟩ := Arrangement.passed_of_positions hparts
  have hv : validate r.schema ⟨.aggregate .sum name, partitionBy, orderBy, some .running, none⟩ =
      .ok (some .running) := by
    have hcolumns := Arrangement.checkColumns_eq_ok hp ho
    have hsome : orderBy.isEmpty = false := by simpa using hne
    simp [validate, WindowSpec.kind, WindowFunction.kind, FunctionKind.needsOrder, hcolumns,
      requireNumeric, requireNumeric.check, htype, ColumnType.isNumeric, FrameSpec.running]
  refine exists_evaluate hr hv hparts (fun positions =>
    (prefixCounts (positions.map marks)).map fun (n : ℕ) => Value.int n) fun p hp => ?_
  have hin := Arrangement.lt_size_of_positions hparts hp
  have hcells : p.positions.map (r.cell name) =
      (p.positions.map marks).map fun b => .int (FrameAggregate.ofMark b) := by
    rw [List.map_map]
    exact List.map_congr_left fun i hi => hmarks i (hin i hi)
  have hlength : (Arrangement.rowsAt r p.positions).length = (p.positions.map marks).length := by
    rw [FrameExtent.rowsAt_eq_map hin, List.length_map, List.length_map]
  have hspans : FrameExtent.spans r.schema orderBy (Arrangement.rowsAt r p.positions) .running =
      .ok (FrameExtent.rowSpans (p.positions.map marks).length .running) := by
    rw [← hlength]
    rfl
  simp only [evaluateRows, columnOf_eq hin (Schema.mem_names_of_typeOf htype), hcells,
    Option.getD_some, hspans, Result.ok_bind, FrameAggregate.running_counts]

end Arranged

end Window
end OrderedRelations
