import OrderedRelations.Proofs.Relation.Operations
import OrderedRelations.Proofs.Streak.ScratchColumns
import OrderedRelations.Proofs.Window.WindowSafety

/-!
# Scratch columns are new

A schema refuses a name that it has already. Streaks append their scratch columns under names that
the search ends at, so this refusal is never met, whatever the columns are called. Only the test of a
qualifying streak, which may fail in any way, can bring it in from elsewhere.
-/

namespace OrderedRelations

open Result (Avoids)

/-- The refusal of a name that a schema has already. -/
def Failure.IsDuplicate : Failure → Prop
  | .schema (.duplicateColumn _) => True
  | _ => False

/-- The test of a criterion fails so on some row. -/
def StreakCriterion.Raises (r : Relation) (e : Failure) : StreakCriterion → Prop
  | .qualifying test => ∃ values ∈ r.rows, test (r.row values) = .error e
  | _ => False

section Looking

variable {schema : Schema} {name : String}

theorem Schema.indexOf_avoids : Avoids Failure.IsDuplicate (schema.indexOf name) := .orElse id _

theorem Schema.typeOf_avoids : Avoids Failure.IsDuplicate (schema.typeOf name) :=
  (Avoids.orElse id _).bind fun _ _ => .ok _

theorem Relation.column_avoids {r : Relation} : Avoids Failure.IsDuplicate (r.column name) :=
  Schema.indexOf_avoids.bind fun _ _ => .ok _

theorem Column.coerce_avoids (c : Column) (v : Value) : Avoids Failure.IsDuplicate (c.coerce v) := by
  by_cases h : c.type.Accepts v
  · exact (Column.coerce_yields h).avoids id
  · rw [Column.coerce_eq_error h]
    exact .error id

end Looking

namespace Window

variable {schema : Schema} {spec : WindowSpec}

theorem checkColumns_avoids (partitionBy : List String) (orderBy : List OrderKey) :
    Avoids Failure.IsDuplicate (Arrangement.checkColumns schema partitionBy orderBy) := by
  unfold Arrangement.checkColumns
  split
  · exact .error id
  · split
    · exact .error id
    · exact .ok ()

theorem requireNumeric_avoids (function : WindowFunction) :
    Avoids Failure.IsDuplicate (requireNumeric schema function) := by
  have hcheck : ∀ kind column,
      Avoids Failure.IsDuplicate (requireNumeric.check schema kind column) := by
    intro kind column
    refine Schema.typeOf_avoids.bind fun type _ => ?_
    split
    · exact .ok ()
    · exact .error id
  unfold requireNumeric
  split
  · exact hcheck _ _
  · exact hcheck _ _
  · split
    · exact Schema.typeOf_avoids.map
    · exact .ok ()

theorem checkRangeOffsets_avoids (frame : FrameSpec) :
    Avoids Failure.IsDuplicate (checkRangeOffsets schema spec frame) := by
  have hduration : ∀ column type bound,
      Avoids Failure.IsDuplicate (checkDuration column type bound) := by
    intro column type bound
    unfold checkDuration
    split
    · split
      · exact .error id
      · exact .ok ()
    · exact .ok ()
  unfold checkRangeOffsets
  split
  · refine Schema.typeOf_avoids.bind fun type _ => ?_
    split
    · exact (hduration _ _ _).bind fun _ _ => hduration _ _ _
    · exact .error id
  · exact .error id

theorem validate_avoids : Avoids Failure.IsDuplicate (validate schema spec) := by
  unfold validate
  dsimp only
  split
  · exact .error id
  · refine (checkColumns_avoids _ _).bind fun _ _ => ?_
    refine (requireNumeric_avoids _).bind fun _ _ => ?_
    split
    · exact .ok none
    · split
      · exact (checkRangeOffsets_avoids _).bind fun _ _ => .ok _
      · exact .ok _

theorem evaluate_avoids {r : Relation} (hr : r.WellFormed) :
    Avoids Failure.IsDuplicate (evaluate r spec) := by
  intro e he
  rcases evaluate_eq_error hr he with he | rfl
  · exact validate_avoids e he
  · exact id

end Window

namespace Streak

variable {r : Relation} {partitionBy : List String} {orderBy : List OrderKey}

/-- A scratch column is refused for its values, if at all. -/
theorem scratch_avoids (r : Relation) (stem : String) (type : ColumnType) (values : List Value) :
    Avoids Failure.IsDuplicate (r.withColumn (scratchName r.schema stem) type values) := by
  by_cases hlength : values.length = r.size
  · obtain ⟨schema, -, heq⟩ := r.withColumn_eq (c := scratch r.schema stem type)
      (scratchName_free r.schema stem) hlength
    change r.withColumn (scratchName r.schema stem) type values = _ at heq
    rw [heq]
    exact (Avoids.mapM fun v _ => Column.coerce_avoids _ v).map
  · rw [Relation.withColumn, Relation.checkLength, if_neg hlength]
    exact .error id

theorem measured_avoids (schema : Schema) (orderBy : List OrderKey) (column : Option String) :
    Avoids Failure.IsDuplicate (measured schema orderBy column) := by
  have hlooked : ∀ name, Avoids Failure.IsDuplicate (measured schema orderBy (some name)) := by
    intro name
    simp only [measured, Result.pure_eq_ok, Result.ok_bind]
    split
    · exact .error id
    · split
      · exact .ok _
      · exact .error id
  match column, orderBy with
  | some name, _ => exact hlooked name
  | none, k :: _ => exact hlooked k.column
  | none, [] => exact .error id

theorem distance_avoids (role : String) (type : ColumnType) (offset : Offset) :
    Avoids Failure.IsDuplicate (distance role type offset) := by
  unfold distance
  split
  · exact .ok _
  · exact .error id
  · exact .error id

theorem quantityAt_avoids (type : ColumnType) (v : Value) :
    Avoids Failure.IsDuplicate (v.quantityAt type) := by
  refine Avoids.bind ?_ fun place _ => .orElse id _
  unfold Value.coordinate
  split
  · exact .ok _
  · exact .ok _
  · exact .error id
  · exact (Avoids.orElse id _).map
  · exact .error id
  · exact .ok _

theorem island_avoids (type : ColumnType) (step : Quantity) (v rowNumber : Value) :
    Avoids Failure.IsDuplicate (island type step v rowNumber) := by
  refine (quantityAt_avoids type v).bind fun c _ => ?_
  refine (Avoids.orElse id _).bind fun n _ => ?_
  exact (Avoids.orElse id _).bind fun covered _ => .orElse id _

theorem startsAfterGap_avoids (type : ColumnType) (tolerance : Quantity) (inclusive : Bool)
    (v previous : Value) :
    Avoids Failure.IsDuplicate (startsAfterGap type tolerance inclusive v previous) := by
  unfold startsAfterGap
  split
  · exact .ok true
  · refine (quantityAt_avoids type v).bind fun a _ => ?_
    refine (quantityAt_avoids type previous).bind fun b _ => ?_
    exact (Avoids.orElse id _).bind fun d _ => .ok _

theorem countStarts_avoids (hr : r.WellFormed) (starts : List Bool) :
    Avoids Failure.IsDuplicate (countStarts r partitionBy orderBy starts) :=
  (scratch_avoids r _ _ _).bind fun _ hflagged => Window.evaluate_avoids (hr.withColumn hflagged)

theorem consecutiveStarts_avoids (hr : r.WellFormed) (column : String) (type : ColumnType)
    (step : Quantity) :
    Avoids Failure.IsDuplicate (consecutiveStarts r partitionBy orderBy column type step) := by
  refine (Window.evaluate_avoids hr).bind fun numbers _ => ?_
  refine Relation.column_avoids.bind fun values _ => ?_
  refine (Avoids.mapM fun p _ => island_avoids type step p.1 p.2).bind fun islands _ => ?_
  refine (scratch_avoids r _ _ _).bind fun keyed hkeyed => ?_
  exact (Window.evaluate_avoids (hr.withColumn hkeyed)).bind fun previous _ => .ok _

theorem gapStarts_avoids (hr : r.WellFormed) (column : String) (type : ColumnType)
    (tolerance : Quantity) (inclusive : Bool) :
    Avoids Failure.IsDuplicate
      (gapStarts r partitionBy orderBy column type tolerance inclusive) := by
  refine (Window.evaluate_avoids hr).bind fun previous _ => ?_
  refine Relation.column_avoids.bind fun values _ => ?_
  exact Avoids.mapM fun p _ => startsAfterGap_avoids type tolerance inclusive p.1 p.2

theorem wellFormed_present (hr : r.WellFormed) (positions : List ℕ) :
    (present r positions).WellFormed :=
  hr.of_subset fun _ hrow => by
    obtain ⟨i, -, hi⟩ := List.mem_filterMap.mp hrow
    exact List.mem_of_getElem? hi

theorem numberRuns_avoids (hr : r.WellFormed) (column : String)
    {starts : Relation → Result (List Bool)}
    (hstarts : ∀ {s : Relation}, s.WellFormed → Avoids Failure.IsDuplicate (starts s)) :
    Avoids Failure.IsDuplicate (numberRuns r partitionBy orderBy column starts) := by
  refine Relation.column_avoids.bind fun values _ => ?_
  have hpresent := wellFormed_present hr (presentPositions values)
  refine (hstarts hpresent).bind fun flags _ => ?_
  exact (countStarts_avoids hpresent flags).bind fun ids _ => .ok _

/-- The refusals of a taken name that the test of a criterion has no part in. -/
def Unprovoked (r : Relation) (criterion : StreakCriterion) (e : Failure) : Prop :=
  e.IsDuplicate ∧ ¬ criterion.Raises r e

theorem qualifyingIds_avoids (hr : r.WellFormed) (test : Row → Result Bool) :
    Avoids (Unprovoked r (.qualifying test)) (qualifyingIds r partitionBy orderBy test) := by
  have htest : Avoids (Unprovoked r (.qualifying test))
      (r.rows.mapM fun values => test (r.row values)) :=
    Avoids.mapM fun values hvalues e he hunprovoked => hunprovoked.2 ⟨values, hvalues, he⟩
  refine htest.bind fun flags _ => Avoids.mono ?_ fun e hunprovoked => hunprovoked.1
  refine (scratch_avoids r _ _ _).bind fun flagged hflagged => ?_
  have hwide := hr.withColumn hflagged
  refine (Window.evaluate_avoids hwide).bind fun all _ => ?_
  exact (Window.evaluate_avoids hwide).bind fun within _ => .ok _

theorem ids_avoids (hr : r.WellFormed) (criterion : StreakCriterion) (gapInclusive : Bool) :
    Avoids (Unprovoked r criterion) (ids r partitionBy orderBy criterion gapInclusive) := by
  unfold ids
  split
  · exact .error fun hunprovoked => hunprovoked.1
  · cases criterion with
    | qualifying test => exact qualifyingIds_avoids hr test
    | consecutive column step =>
      refine Avoids.mono ?_ fun e hunprovoked => hunprovoked.1
      refine (measured_avoids _ _ _).bind fun found _ => ?_
      refine (distance_avoids _ _ _).bind fun d _ => ?_
      exact numberRuns_avoids hr _ fun hs => consecutiveStarts_avoids hs _ _ _
    | gap column tolerance inclusive =>
      refine Avoids.mono ?_ fun e hunprovoked => hunprovoked.1
      refine (measured_avoids _ _ _).bind fun found _ => ?_
      refine (distance_avoids _ _ _).bind fun d _ => ?_
      exact numberRuns_avoids hr _ fun hs => gapStarts_avoids hs _ _ _ _

/-- The search for a scratch name ends, behind no more taken candidates than there are columns, at a
name that is neither empty nor taken, and it ends nowhere else. So no scratch column is refused for
its name, and neither are the ids of streaks, unless the test of a qualifying streak fails so. -/
theorem scratchName_searched (schema : Schema) (stem : String) :
    (∃ skipped ≤ schema.width, Searches schema stem 0 skipped (scratchName schema stem)) ∧
    (∀ skipped name, Searches schema stem 0 skipped name → skipped ≤ schema.width ∧
      name = scratchName schema stem ∧ name ≠ "" ∧ name ∉ schema.names) ∧
    ∀ rows : List (List Value),
      (∀ type values, Avoids Failure.IsDuplicate
        (Relation.withColumn ⟨schema, rows⟩ (scratchName schema stem) type values)) ∧
      (Relation.WellFormed ⟨schema, rows⟩ → ∀ partitionBy orderBy criterion gapInclusive e,
        ids ⟨schema, rows⟩ partitionBy orderBy criterion gapInclusive = .error e →
          e.IsDuplicate → criterion.Raises ⟨schema, rows⟩ e) := by
  obtain ⟨skipped, hskipped, hsearch⟩ := exists_scratchName schema stem
  refine ⟨⟨skipped, hskipped, hsearch⟩, fun skipped' name hsearch' => ?_, fun rows => ⟨?_, ?_⟩⟩
  · obtain ⟨rfl, rfl⟩ := hsearch.unique hsearch'
    exact ⟨hskipped, rfl, scratchName_ne schema stem, hsearch.notMem⟩
  · exact scratch_avoids ⟨schema, rows⟩ stem
  · intro hr partitionBy orderBy criterion gapInclusive e he hduplicate
    by_contra hraises
    exact ids_avoids hr criterion gapInclusive e he ⟨hduplicate, hraises⟩

theorem watch_named : "watch" ≠ "" := by decide

/-- Watches beside the columns that earlier searches have left, in no order. -/
def searchedWatches : Relation :=
  ⟨⟨[⟨candidate "island" 2, .integer, candidate_ne _ _⟩, ⟨"watch", .integer, watch_named⟩,
    ⟨candidate "island" 0, .integer, candidate_ne _ _⟩,
    ⟨candidate "island" 1, .integer, candidate_ne _ _⟩], by decide⟩,
    [[.int 0, .int 4, .null, .int 0], [.int 1, .int 5, .null, .int 0]]⟩

/-- A test that puts every column beside itself. -/
def doubling (row : Row) : Result Bool :=
  (Schema.ofColumns (row.schema.columns ++ row.schema.columns)).map fun _ => true

theorem scratchName_searched_watches :
    searchedWatches.WellFormed ∧
      (∃ skipped ≤ 4, Searches searchedWatches.schema "island" 0 skipped "__island_3") ∧
      ids searchedWatches [] [⟨"watch", .asc, .last⟩] (.qualifying doubling) false =
        .error (.schema (.duplicateColumn "__island_2")) ∧
      ∃ values ∈ searchedWatches.rows, doubling (searchedWatches.row values) =
        .error (.schema (.duplicateColumn "__island_2")) := by
  have hr : searchedWatches.WellFormed := by decide
  have hids : ids searchedWatches [] [⟨"watch", .asc, .last⟩] (.qualifying doubling) false =
      .error (.schema (.duplicateColumn "__island_2")) := rfl
  obtain ⟨hsearch, -, hrows⟩ := scratchName_searched searchedWatches.schema "island"
  exact ⟨hr, hsearch, hids, (hrows searchedWatches.rows).2 hr _ _ _ _ _ hids trivial⟩

end Streak
end OrderedRelations
