import Mathlib.Data.Int.Notation
import OrderedRelations.Proofs.Relation.Cell
import OrderedRelations.Window.Evaluation

/-!
# What validation guarantees

A specification that is accepted names columns of the schema, sums and averages only numbers, and
measures range offsets on the number line of a single order column.
-/

namespace OrderedRelations

namespace Arrangement

theorem columns_of_checkColumns {schema : Schema} {partitionBy : List String}
    {orderBy : List OrderKey} (h : checkColumns schema partitionBy orderBy = .ok ()) :
    (∀ name ∈ partitionBy, name ∈ schema.names) ∧ ∀ k ∈ orderBy, k.column ∈ schema.names := by
  unfold checkColumns at h
  split at h
  · cases h
  · rename_i hparts
    split at h
    · cases h
    · rename_i horders
      exact ⟨by simpa [Schema.contains_iff] using hparts, by simpa [Schema.contains_iff] using horders⟩

end Arrangement

namespace Window

/-- A frame whose range offsets measure the column of a single order key; no duration stands beside
numbers. -/
def MeasuresOrder (schema : Schema) (orderBy : List OrderKey) (frame : FrameSpec) : Prop :=
  frame.unit = .range → frame.hasOffsets = true → ∃ k type, orderBy = [k] ∧
    schema.typeOf k.column = .ok type ∧ type.isMeasurable = true ∧
    ∀ m, frame.start.offset? = some (.duration m) ∨ frame.stop.offset? = some (.duration m) →
      type.isNumeric = false

/-- An accepted specification with the frame that applies. -/
structure Validated (schema : Schema) (spec : WindowSpec) (frame : Option FrameSpec) : Prop where
  partitionColumns : ∀ name ∈ spec.partitionBy, name ∈ schema.names
  orderColumns : ∀ k ∈ spec.orderBy, k.column ∈ schema.names
  argument : ∀ name, spec.function.column? = some name → name ∈ schema.names
  numeric : ∀ kind name, spec.function = .aggregate kind name → kind = .sum ∨ kind = .avg →
    ∃ type, schema.typeOf name = .ok type ∧ type.isNumeric = true
  measures : ∀ f, frame = some f → MeasuresOrder schema spec.orderBy f

/-- The frame that stands in where none applies measures nothing. -/
theorem Validated.measuresOrder {schema : Schema} {spec : WindowSpec} {frame : Option FrameSpec}
    (h : Validated schema spec frame) :
    MeasuresOrder schema spec.orderBy (frame.getD spec.defaultFrame) := by
  cases frame with
  | some f => exact h.measures f rfl
  | none =>
    intro _ hoffsets
    unfold WindowSpec.defaultFrame at hoffsets
    split at hoffsets <;> cases hoffsets

private theorem check_eq_ok {schema : Schema} {kind : AggregateKind} {name : String}
    (h : requireNumeric.check schema kind name = .ok ()) :
    ∃ type, schema.typeOf name = .ok type ∧ type.isNumeric = true := by
  simp only [requireNumeric.check, Result.bind_eq_ok] at h
  obtain ⟨type, htype, h⟩ := h
  split at h
  · exact ⟨type, htype, ‹_›⟩
  · cases h

theorem argument_of_requireNumeric {schema : Schema} {function : WindowFunction}
    (h : requireNumeric schema function = .ok ()) :
    (∀ name, function.column? = some name → name ∈ schema.names) ∧
    ∀ kind name, function = .aggregate kind name → kind = .sum ∨ kind = .avg →
      ∃ type, schema.typeOf name = .ok type ∧ type.isNumeric = true := by
  unfold requireNumeric at h
  split at h
  · obtain ⟨type, htype, hnumeric⟩ := check_eq_ok h
    refine ⟨fun name hname => ?_, fun kind name hfunction _ => ?_⟩
    · cases hname
      exact Schema.mem_names_of_typeOf htype
    · cases hfunction
      exact ⟨type, htype, hnumeric⟩
  · obtain ⟨type, htype, hnumeric⟩ := check_eq_ok h
    refine ⟨fun name hname => ?_, fun kind name hfunction _ => ?_⟩
    · cases hname
      exact Schema.mem_names_of_typeOf htype
    · cases hfunction
      exact ⟨type, htype, hnumeric⟩
  · rename_i hsum havg
    refine ⟨fun name hname => ?_, ?_⟩
    · rw [hname] at h
      obtain ⟨type, htype, -⟩ := Result.map_eq_ok.mp h
      exact Schema.mem_names_of_typeOf htype
    · rintro kind name rfl (rfl | rfl)
      · exact absurd rfl (hsum name)
      · exact absurd rfl (havg name)

theorem checkDuration_eq_ok {column : String} {type : ColumnType} {bound : FrameBound}
    (h : checkDuration column type bound = .ok ()) {m : ℤ}
    (hm : bound.offset? = some (.duration m)) : type.isNumeric = false := by
  unfold checkDuration at h
  rw [hm] at h
  dsimp only at h
  split at h
  · cases h
  · simpa using ‹¬ type.isNumeric = true›

theorem measuresOrder_of_checkRangeOffsets {schema : Schema} {spec : WindowSpec} {frame : FrameSpec}
    (h : checkRangeOffsets schema spec frame = .ok ()) :
    MeasuresOrder schema spec.orderBy frame := by
  intro _ _
  unfold checkRangeOffsets at h
  split at h
  · rename_i k hk
    rw [Result.bind_eq_ok] at h
    obtain ⟨type, htype, h⟩ := h
    split at h
    · rw [Result.bind_eq_ok] at h
      obtain ⟨_, hstart, hstop⟩ := h
      refine ⟨k, type, hk, htype, ‹_›, fun m hm => ?_⟩
      rcases hm with hm | hm
      · exact checkDuration_eq_ok hstart hm
      · exact checkDuration_eq_ok hstop hm
    · cases h
  · cases h

theorem validate_eq_ok {schema : Schema} {spec : WindowSpec} {frame : Option FrameSpec}
    (h : validate schema spec = .ok frame) : Validated schema spec frame := by
  cases hneeds : spec.kind.needsOrder with
  | true =>
    cases hempty : spec.orderBy.isEmpty with
    | true => simp [validate, hneeds, hempty] at h
    | false =>
      simp only [validate, hneeds, hempty, Bool.and_false, Bool.false_eq_true, if_false, if_true,
        Result.bind_eq_ok] at h
      obtain ⟨_, hcolumns, _, hargument, h⟩ := h
      obtain ⟨hpartition, horder⟩ := Arrangement.columns_of_checkColumns hcolumns
      obtain ⟨hname, hnumeric⟩ := argument_of_requireNumeric hargument
      cases h
      exact ⟨hpartition, horder, hname, hnumeric, fun _ hnone => nomatch hnone⟩
  | false =>
    simp only [validate, hneeds, Bool.false_and, Bool.false_eq_true, if_false,
      Result.bind_eq_ok] at h
    obtain ⟨_, hcolumns, _, hargument, h⟩ := h
    obtain ⟨hpartition, horder⟩ := Arrangement.columns_of_checkColumns hcolumns
    obtain ⟨hname, hnumeric⟩ := argument_of_requireNumeric hargument
    split at h
    · obtain ⟨_, hoffsets, h⟩ := Result.bind_eq_ok.mp h
      cases h
      refine ⟨hpartition, horder, hname, hnumeric, fun f hf => ?_⟩
      cases hf
      exact measuresOrder_of_checkRangeOffsets hoffsets
    · rename_i hplain
      cases h
      refine ⟨hpartition, horder, hname, hnumeric, fun f hf => ?_⟩
      cases hf
      exact fun hunit hoffsets => absurd ⟨hunit, hoffsets⟩ hplain

/-- A function that needs no order is evaluated over its own frame, or else the default one. -/
theorem frame_of_validate {schema : Schema} {spec : WindowSpec} {frame : Option FrameSpec}
    (h : validate schema spec = .ok frame) (hneeds : spec.kind.needsOrder = false) :
    frame = some (spec.frame.getD spec.defaultFrame) := by
  simp only [validate, hneeds, Bool.false_and, Bool.false_eq_true, if_false,
    Result.bind_eq_ok] at h
  obtain ⟨_, -, _, -, h⟩ := h
  split at h
  · obtain ⟨_, -, h⟩ := Result.bind_eq_ok.mp h
    cases h
    rfl
  · cases h
    rfl

end Window
end OrderedRelations
