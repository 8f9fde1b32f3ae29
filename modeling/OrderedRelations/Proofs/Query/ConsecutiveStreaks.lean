import OrderedRelations.Proofs.Query.StreakDirections
import OrderedRelations.Proofs.Streak.ArrangedLines

/-!
# Streaks of consecutive values

Along every partition, in the order of the keys, the rows that have a measured value are numbered from
one on without gaps, and a number is kept exactly where the value goes on by one step.
-/

namespace OrderedRelations.Query
open Streak

variable {r : Relation} {partitions order : Value} {partitionBy : List String}
  {orderBy : List OrderKey} {column : String} {type : ColumnType} {named : Option String}
  {step : Option Offset}

/-- The step from one coordinate to the next, downwards where the order is: one day, or one, unless
a step is given. -/
def stepAlong (orderBy : List OrderKey) (column : String) (type : ColumnType)
    (step : Option Offset) : ℤ :=
  if stepsDown orderBy column then -(step.getD (.whole 1)).length type
  else (step.getD (.whole 1)).length type

/-- Streaks of consecutive values number the rows of every partition that have a value, along the
arrangement of all rows: from one on, with the next number exactly where a value is not one step
from the value before it. Rows without a value have no number and play no part in the others. -/
theorem streakIds_consecutive (hr : r.WellFormed)
    (hshape : WindowSpec.shapeOfValues partitions order = .ok (partitionBy, orderBy))
    (hne : orderBy ≠ []) (hpartition : ∀ name ∈ partitionBy, name ∈ r.names)
    (ho : ∀ k ∈ orderBy, k.column ∈ r.names) (hnan : r.NaNFree orderBy) (hc : r.Comparable orderBy)
    (hnamed : named.or (orderBy.head?.map OrderKey.column) = some column)
    (htype : r.schema.typeOf column = .ok type) (hstep : (step.getD (.whole 1)).Measures type)
    (hpoints : ∀ i ∈ presentRows r column, (r.cell column i).comparable?.isSome = true)
    (settings : Settings) :
    ∃ parts numbers, Arrangement.positions r partitionBy orderBy = .ok parts ∧
      streakIds r partitions order (.consecutive named step) settings = .ok numbers ∧
      StepNumbered r column type (stepAlong orderBy column type step)
        (parts.map (measuredLine r column)) numbers ∧
      ∀ s : Relation, s.schema = r.schema → valuedRows s column = valuedRows r column →
        ∃ numbers', streakIds s partitions order (.consecutive named step) settings = .ok numbers' ∧
          (presentRows s column).map (numbers'[·]?) = (presentRows r column).map (numbers[·]?) := by
  have hparts := Arrangement.positions_eq_passed hpartition ho hc
  have hmeasured := Arrangement.positions_eq_passed (r := measuredRows r column) hpartition ho
    (hc.pick lt_size_of_presentRows)
  have hmeasures : (StreakCriterion.consecutive named step).Measures type := hstep
  have hcolumn : (StreakCriterion.consecutive named step).column?.or
      (orderBy.head?.map OrderKey.column) = some column := hnamed
  obtain ⟨numbers, hids, hnumbered⟩ := exists_ids hne hcolumn htype hmeasures hr hmeasured hpoints
  obtain ⟨measuredIds, hsame⟩ := exists_measuredIds hne hcolumn htype hmeasures hr hmeasured hpoints
  refine ⟨_, numbers, hparts, (streakIds_eq_ids hshape settings).trans hids,
    hnumbered.stepNumbered hr hnan hmeasured hparts htype hstep.whole hpoints, ?_⟩
  intro s hschema hvalued
  obtain ⟨numbers', hids', hvalues'⟩ := hsame s hschema hvalued
  obtain ⟨own, hown, hvalues⟩ := hsame r rfl rfl
  cases hids.symm.trans hown
  exact ⟨numbers', (streakIds_eq_ids hshape settings).trans hids', hvalues'.trans hvalues.symm⟩

def dutyColumns : Schema := ⟨[⟨"squad", .text, by decide⟩, ⟨"duty", .date, by decide⟩], by decide⟩

def march (day : ℕ) (h : Calendar.isDate 2024 3 day = true) : Value := .date ⟨2024, 3, day, h⟩

/-- Days on which two squads were on duty, one of them twice and one of them unknown. -/
def dutyDays : Relation :=
  ⟨dutyColumns, [[.text "red", march 3 rfl], [.text "blue", march 7 rfl], [.text "red", .null],
    [.text "red", march 2 rfl], [.text "red", march 2 rfl], [.text "blue", march 5 rfl],
    [.text "red", march 1 rfl]]⟩

def knownDutyDays : Relation :=
  ⟨dutyColumns, [[.text "red", march 3 rfl], [.text "blue", march 7 rfl],
    [.text "red", march 2 rfl], [.text "red", march 2 rfl], [.text "blue", march 5 rfl],
    [.text "red", march 1 rfl]]⟩

/-- Down from the last day: a day that comes twice starts a streak, and the unknown day none. -/
theorem streakIds_consecutive_dutyDays :
    ∃ parts, Arrangement.positions dutyDays ["squad"] [⟨"duty", .desc, .first⟩] = .ok parts ∧
      StepNumbered dutyDays "duty" .date (-1) (parts.map (measuredLine dutyDays "duty"))
        [.int 1, .int 1, .null, .int 1, .int 2, .int 2, .int 2] ∧
      ∃ numbers, streakIds knownDutyDays (.text "squad") (.text "duty desc") (.consecutive none none)
          .defaults = .ok numbers ∧
        (presentRows knownDutyDays "duty").map (numbers[·]?) =
          [.int 1, .int 1, .int 1, .int 2, .int 2, .int 2].map some := by
  have hshape : WindowSpec.shapeOfValues (.text "squad") (.text "duty desc") =
      .ok (["squad"], [⟨"duty", .desc, .first⟩]) := by cbv
  have hids : streakIds dutyDays (.text "squad") (.text "duty desc") (.consecutive none none) .defaults =
      .ok [.int 1, .int 1, .null, .int 1, .int 2, .int 2, .int 2] := by cbv
  have htype : dutyDays.schema.typeOf "duty" = .ok .date := rfl
  have hcolumn : (none : Option String).or
      (([⟨"duty", .desc, .first⟩] : List OrderKey).head?.map OrderKey.column) = some "duty" := rfl
  have hstep : ((none : Option Offset).getD (.whole 1)).Measures .date := .inr (.inl rfl)
  have hr : dutyDays.WellFormed := by decide
  obtain ⟨parts, numbers, hparts, hnumbers, hstepped, hsame⟩ :=
    streakIds_consecutive hr hshape (by decide) (by decide) (by decide) (by decide) (by decide)
      hcolumn htype hstep (by decide) .defaults
  cases hids.symm.trans hnumbers
  exact ⟨parts, hparts, hstepped, hsame knownDutyDays rfl rfl⟩

end OrderedRelations.Query
