import Mathlib
import OrderedRelations.Proofs.Streak.MirroredRuns
import OrderedRelations.Query

/-!
# Streaks in either direction

Grouping by coordinates answers where there are coordinates, and descending order finds the groups of
ascending order, numbered from the other end.
-/

namespace OrderedRelations.Query
open Streak

variable {r : Relation} {partitions ascending descending : Value} {partitionBy : List String}
  {column : String} {nulls nulls' : NullPlacement} {type : ColumnType} {criterion : StreakCriterion}

theorem streakIds_eq_ids {orderBy : Value} {keys : List OrderKey}
    (hshape : WindowSpec.shapeOfValues partitions orderBy = .ok (partitionBy, keys))
    (settings : Settings) : streakIds r partitions orderBy criterion settings =
      ids r partitionBy keys criterion settings.gapInclusive := by
  rw [streakIds, hshape]
  rfl

/-- Grouping by coordinates in the order of one key answers exactly where there are coordinates, and
then numbers the runs of the key. -/
theorem streakIds_iff {orderBy : Value} {direction : SortDirection} (hr : r.WellFormed)
    (hshape : WindowSpec.shapeOfValues partitions orderBy =
      .ok (partitionBy, [⟨column, direction, nulls⟩]))
    (hpartition : ∀ name ∈ partitionBy, name ∈ r.names)
    (htype : r.schema.typeOf column = .ok type)
    (hnamed : criterion.column? = none ∨ criterion.column? = some column)
    (hmeasures : criterion.Measures type) (settings : Settings) :
    ((∃ numbers, streakIds r partitions orderBy criterion settings = .ok numbers) ↔
      ∀ i ∈ presentRows r column, ∃ x, (r.cell column i).coordinate type = .ok x) ∧
    ∀ numbers, streakIds r partitions orderBy criterion settings = .ok numbers →
      ∃ parts, Arrangement.positions (measuredRows r column) partitionBy
        [⟨column, direction, nulls⟩] = .ok parts ∧
      Numbered r column (linesOf r column parts)
        (criterion.breaks type (decide (direction = .desc)) settings.gapInclusive) numbers := by
  have hne : [(⟨column, direction, nulls⟩ : OrderKey)] ≠ [] := List.cons_ne_nil _ _
  have hcolumn : criterion.column?.or ([(⟨column, direction, nulls⟩ : OrderKey)].head?.map
      OrderKey.column) = some column := by
    rcases hnamed with h | h <;> simp [h]
  have hdirection : stepsDown [⟨column, direction, nulls⟩] column =
      decide (direction = .desc) := by simp [stepsDown, OrderKey.descending]
  have hcoordinates : (∀ i ∈ presentRows r column, ∃ x, (r.cell column i).coordinate type = .ok x) ↔
      (measuredRows r column).Comparable [⟨column, direction, nulls⟩] := by
    simp only [comparable_measuredRows, List.mem_singleton, forall_eq]
    refine forall₂_congr fun i hi => ?_
    obtain ⟨-, hnull⟩ := mem_presentRows.mp hi
    exact exists_coordinate_iff hmeasures.whole (hr.conforms_cell htype i) hnull
  have hnumbered : ∀ parts, Arrangement.positions (measuredRows r column) partitionBy
      [⟨column, direction, nulls⟩] = .ok parts →
        ∃ numbers, ids r partitionBy [⟨column, direction, nulls⟩] criterion settings.gapInclusive =
          .ok numbers ∧ Numbered r column (linesOf r column parts)
            (criterion.breaks type (decide (direction = .desc)) settings.gapInclusive) numbers := by
    intro parts hparts
    have hc := (Arrangement.passed_of_positions hparts).2.2.1
    rw [← hdirection]
    exact exists_ids hne hcolumn htype hmeasures hr hparts
      (comparable_measuredRows.mp hc _ (List.mem_singleton.mpr rfl))
  rw [streakIds_eq_ids hshape, hcoordinates]
  refine ⟨⟨fun h => ?_, fun hc => ?_⟩, fun numbers h => ?_⟩
  · obtain ⟨numbers, h⟩ := h
    obtain ⟨parts, hparts⟩ := exists_positions_of_ids hne hcolumn htype hmeasures h
    exact (Arrangement.passed_of_positions hparts).2.2.1
  · have ho : ∀ k ∈ [(⟨column, direction, nulls⟩ : OrderKey)],
        k.column ∈ (measuredRows r column).names := by
      rw [List.forall_mem_singleton]
      exact Schema.mem_names_of_typeOf htype
    obtain ⟨numbers, hids, -⟩ := hnumbered _ (Arrangement.positions_eq_passed hpartition ho hc)
    exact ⟨numbers, hids⟩
  · obtain ⟨parts, hparts⟩ := exists_positions_of_ids hne hcolumn htype hmeasures h
    obtain ⟨numbers', hids, hruns⟩ := hnumbered parts hparts
    cases h.symm.trans hids
    exact ⟨parts, hparts, hruns⟩

/-- Where no two rows of a partition share a coordinate, descending order groups the rows as ascending
order does, and numbers the groups of every partition from the other end. Either order answers
exactly where every value has a coordinate. -/
theorem streakIds_mirrored (hr : r.WellFormed)
    (hup : WindowSpec.shapeOfValues partitions ascending = .ok (partitionBy, [⟨column, .asc, nulls⟩]))
    (hdown : WindowSpec.shapeOfValues partitions descending =
      .ok (partitionBy, [⟨column, .desc, nulls'⟩]))
    (hpartition : ∀ name ∈ partitionBy, name ∈ r.names)
    (htype : r.schema.typeOf column = .ok type)
    (hnamed : criterion.column? = none ∨ criterion.column? = some column)
    (hmeasures : criterion.Measures type) (hapart : CoordinatesApart r partitionBy column type)
    (settings : Settings) :
    ((∃ up, streakIds r partitions ascending criterion settings = .ok up) ↔
      ∀ i ∈ presentRows r column, ∃ x, (r.cell column i).coordinate type = .ok x) ∧
    ((∃ down, streakIds r partitions descending criterion settings = .ok down) ↔
      ∀ i ∈ presentRows r column, ∃ x, (r.cell column i).coordinate type = .ok x) ∧
    ∀ up down, streakIds r partitions ascending criterion settings = .ok up →
      streakIds r partitions descending criterion settings = .ok down → ∀ i < r.size,
        if (r.cell column i).isNull then up[i]? = some .null ∧ down[i]? = some .null
        else ∃ n : ℤ, up[i]? = some (.int n) ∧ down[i]? = some (.int
          (groupCount up (r.positionsOf partitionBy (r.cells partitionBy i)) + 1 - n)) := by
  obtain ⟨hanswers, hids⟩ := streakIds_iff hr hup hpartition htype hnamed hmeasures settings
  obtain ⟨hanswers', hids'⟩ := streakIds_iff hr hdown hpartition htype hnamed hmeasures settings
  refine ⟨hanswers, hanswers', fun up down hupIds hdownIds i hi => ?_⟩
  obtain ⟨parts, hparts, hnumbered⟩ := hids up hupIds
  obtain ⟨parts', hparts', hnumbered'⟩ := hids' down hdownIds
  cases hnull : (r.cell column i).isNull with
  | true => simpa using ⟨hnumbered.absent i hi hnull, hnumbered'.absent i hi hnull⟩
  | false =>
    have hpresent := mem_presentRows.mpr ⟨hi, hnull⟩
    obtain ⟨line, hline, hline', hperm⟩ :=
      exists_line_reverse hr htype hmeasures.whole hapart hparts hparts' hpresent
    have hmem : i ∈ line := hperm.mem_iff.mpr
      (List.mem_filter.mpr ⟨hpresent, hr.sameKeys_cells hi hpartition⟩)
    rw [show decide (SortDirection.desc = .desc) = true from rfl, breaks_mirrored] at hnumbered'
    rw [groupCount_eq hnumbered hline (List.ne_nil_of_mem hmem) hperm]
    simpa using ids_mirrored hnumbered hnumbered' hline hline' hmem

/-- The weeks in which two crews worked, one of them unknown. -/
def crewWeeks : Relation :=
  ⟨⟨[⟨"crew", .text, by decide⟩, ⟨"week", .integer, by decide⟩], by decide⟩,
    [[.text "red", .int 5], [.text "blue", .int 2], [.text "red", .null], [.text "red", .int 1],
      [.text "red", .int 2], [.text "blue", .int 4]]⟩

/-- The red crew worked two weeks in a row and then one more, which comes first in descending order. -/
theorem streakIds_mirrored_crewWeeks :
    streakIds crewWeeks (.text "crew") (.text "week") (.consecutive none none) .defaults =
      .ok [.int 2, .int 1, .null, .int 1, .int 1, .int 2] ∧
    ∃ down, streakIds crewWeeks (.text "crew") (.text "week desc") (.consecutive none none) .defaults =
      .ok down ∧ down[0]? = some (.int 1) ∧ down[2]? = some .null := by
  have hup : WindowSpec.shapeOfValues (.text "crew") (.text "week") =
      .ok (["crew"], [⟨"week", .asc, .last⟩]) := by cbv
  have hdown : WindowSpec.shapeOfValues (.text "crew") (.text "week desc") =
      .ok (["crew"], [⟨"week", .desc, .first⟩]) := by cbv
  have hr : crewWeeks.WellFormed := by decide
  have htype : crewWeeks.schema.typeOf "week" = .ok .integer := rfl
  have hapart : CoordinatesApart crewWeeks ["crew"] "week" .integer :=
    coordinatesApart_of_points hr htype (.inl rfl) (by decide)
  have hids : streakIds crewWeeks (.text "crew") (.text "week") (.consecutive none none) .defaults =
      .ok [.int 2, .int 1, .null, .int 1, .int 1, .int 2] := by cbv
  have hnamed : (StreakCriterion.consecutive none none).column? = none ∨
      (StreakCriterion.consecutive none none).column? = some "week" := .inl rfl
  have hmeasures : (StreakCriterion.consecutive none none).Measures .integer := .inl rfl
  obtain ⟨hanswers, hanswers', hmirrored⟩ :=
    streakIds_mirrored hr hup hdown (by decide) htype hnamed hmeasures hapart .defaults
  obtain ⟨down, hdownIds⟩ := hanswers'.mpr (hanswers.mp ⟨_, hids⟩)
  have hgroups : groupCount [.int 2, .int 1, .null, .int 1, .int 1, .int 2]
      (crewWeeks.positionsOf ["crew"] (crewWeeks.cells ["crew"] 0)) = 2 := by decide
  have hfirst := hmirrored _ down hids hdownIds 0 (by decide)
  have hthird := hmirrored _ down hids hdownIds 2 (by decide)
  rw [if_neg (by decide), hgroups] at hfirst
  rw [if_pos (by decide)] at hthird
  obtain ⟨n, hn, hlast⟩ := hfirst
  cases hn
  exact ⟨hids, down, hdownIds, hlast, hthird.2⟩

end OrderedRelations.Query
