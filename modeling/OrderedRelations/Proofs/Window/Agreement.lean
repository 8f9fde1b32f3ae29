import OrderedRelations.Proofs.Window.Validation

/-!
# Window functions that agree

Two window functions over one arrangement have the same values as soon as the relation refuses both
in the same way, or neither, and they agree on the rows of every partition.
-/

namespace OrderedRelations.Window

variable {schema : Schema} {r : Relation} {spec spec' : WindowSpec} {frame frame' : FrameSpec}

/-- Whether a specification is refused, and why. -/
def refusal (schema : Schema) (spec : WindowSpec) : Result Unit :=
  (validate schema spec).map fun _ => ()

/-- Only frames that measure a distance are checked against the order. -/
def checkFrame (schema : Schema) (spec : WindowSpec) (frame : FrameSpec) : Result Unit :=
  if frame.unit = .range ∧ frame.hasOffsets = true then checkRangeOffsets schema spec frame
  else .ok ()

theorem checkFrame_of_plain (h : frame.unit = .range → frame.hasOffsets = false) :
    checkFrame schema spec frame = .ok () := by
  refine if_neg ?_
  rintro ⟨hunit, hoffsets⟩
  rw [h hunit] at hoffsets
  cases hoffsets

/-- A function without a frame is refused for its columns alone. -/
theorem refusal_of_needsOrder (hneeds : spec.kind.needsOrder = true) (hne : spec.orderBy ≠ []) :
    refusal schema spec = (do
      Arrangement.checkColumns schema spec.partitionBy spec.orderBy
      requireNumeric schema spec.function) := by
  have hsome : spec.orderBy.isEmpty = false := by simpa using hne
  simp only [refusal, validate, hneeds, hsome, Bool.and_false, Bool.false_eq_true, if_false, if_true]
  cases Arrangement.checkColumns schema spec.partitionBy spec.orderBy with
  | error e => rfl
  | ok _ => cases requireNumeric schema spec.function <;> rfl

/-- A frame is checked last. -/
theorem refusal_of_frame (hneeds : spec.kind.needsOrder = false) :
    refusal schema spec = (do
      Arrangement.checkColumns schema spec.partitionBy spec.orderBy
      requireNumeric schema spec.function
      checkFrame schema spec (spec.frame.getD spec.defaultFrame)) := by
  simp only [refusal, validate, hneeds, Bool.false_and, Bool.false_eq_true, if_false, checkFrame]
  cases Arrangement.checkColumns schema spec.partitionBy spec.orderBy with
  | error e => rfl
  | ok _ =>
    cases requireNumeric schema spec.function with
    | error e => rfl
    | ok _ =>
      split
      · cases checkRangeOffsets schema spec (spec.frame.getD spec.defaultFrame) <;> rfl
      · rfl

theorem evaluate_of_refusal {e : Failure} (h : refusal r.schema spec = .error e) :
    evaluate r spec = .error e := by
  rw [evaluate, Result.map_eq_error.mp h, Result.error_bind]

/-- A window function sees its rows through its spans alone. -/
theorem evaluateRows_congr {rows : List (List Value)} (hfunction : spec'.function = spec.function)
    (horder : spec'.orderBy = spec.orderBy)
    (hspans : FrameExtent.spans schema spec.orderBy rows frame' =
      FrameExtent.spans schema spec.orderBy rows frame) :
    evaluateRows schema spec' frame' rows = evaluateRows schema spec frame rows := by
  simp only [evaluateRows, hfunction, horder, hspans]

/-- Two window functions over one arrangement that are refused alike and agree on every partition
agree. -/
theorem evaluate_congr (hpartition : spec'.partitionBy = spec.partitionBy)
    (horder : spec'.orderBy = spec.orderBy)
    (hrefused : refusal r.schema spec' = refusal r.schema spec)
    (hrows : ∀ frame frame' parts, validate r.schema spec = .ok frame →
      validate r.schema spec' = .ok frame' →
      Arrangement.positions r spec.partitionBy spec.orderBy = .ok parts → ∀ p ∈ parts,
        evaluateRows r.schema spec' (frame'.getD spec'.defaultFrame)
            (Arrangement.rowsAt r p.positions) =
          evaluateRows r.schema spec (frame.getD spec.defaultFrame)
            (Arrangement.rowsAt r p.positions)) :
    evaluate r spec' = evaluate r spec := by
  cases hrefusal : refusal r.schema spec with
  | error e =>
    rw [evaluate_of_refusal hrefusal, evaluate_of_refusal (hrefused.trans hrefusal)]
  | ok _ =>
    obtain ⟨frame, hv, -⟩ := Result.map_eq_ok.mp hrefusal
    obtain ⟨frame', hv', -⟩ := Result.map_eq_ok.mp (hrefused.trans hrefusal)
    rw [evaluate, evaluate, hv, hv', Result.ok_bind, Result.ok_bind, hpartition, horder]
    cases hparts : Arrangement.positions r spec.partitionBy spec.orderBy with
    | error e => rfl
    | ok parts =>
      have hall := hrows frame frame' parts hv hv' hparts
      rw [Result.ok_bind, Result.ok_bind]
      refine congrArg (· >>= _) (Result.mapM_congr (List.forall₂_same.mpr fun p hp => ?_))
      rw [hall p hp]

end OrderedRelations.Window
