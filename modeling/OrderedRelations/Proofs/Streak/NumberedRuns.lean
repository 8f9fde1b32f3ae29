import OrderedRelations.Proofs.Streak.RunStarts

/-!
# Numbered runs

The rows that have a measured value are numbered by runs along their partition, as if there were no
other rows; the others have no id.
-/

namespace OrderedRelations

namespace StreakCriterion

/-- The column that a criterion names. -/
def column? : StreakCriterion → Option String
  | qualifying _ => none
  | consecutive column _ => column
  | gap column _ _ => column

/-- Criteria by coordinates, with a step or a tolerance in whole units beside a column type. -/
def Measures (type : ColumnType) : StreakCriterion → Prop
  | qualifying _ => False
  | consecutive _ step => (step.getD (.whole 1)).Measures type
  | gap _ tolerance _ => tolerance.Measures type

/-- Whether a criterion by coordinates breaks a run between two neighbours. -/
def breaks (type : ColumnType) (down gapInclusive : Bool) : StreakCriterion → ℤ → ℤ → Bool
  | qualifying _ => fun _ _ => false
  | consecutive _ step =>
    let distance := (step.getD (.whole 1)).length type
    Streak.stepBreaks (if down then -distance else distance)
  | gap _ tolerance inclusive =>
    Streak.gapBreaks (tolerance.length type) (inclusive.getD gapInclusive)

theorem Measures.whole {type : ColumnType} {criterion : StreakCriterion}
    (h : criterion.Measures type) : type.Whole := by
  cases criterion with
  | qualifying test => exact h.elim
  | consecutive column step => exact Offset.Measures.whole h
  | gap column tolerance inclusive => exact Offset.Measures.whole h

end StreakCriterion

namespace Streak

/-- The rows that have a value in a column. -/
def presentRows (r : Relation) (column : String) : List ℕ :=
  (List.range r.size).filter fun i => !(r.cell column i).isNull

/-- The relation of these rows. -/
def measuredRows (r : Relation) (column : String) : Relation := r.pick (presentRows r column)

/-- The partitions of the measured rows, each as a line of rows of the relation. -/
def linesOf (r : Relation) (column : String) (parts : List Partition) : List (List ℕ) :=
  parts.map fun p => p.positions.map (Relation.placeAt (presentRows r column))

variable {r : Relation} {partitionBy : List String} {orderBy : List OrderKey}
  {parts : List Partition} {column : String} {type : ColumnType} {breaks : ℤ → ℤ → Bool}

theorem mem_presentRows {i : ℕ} :
    i ∈ presentRows r column ↔ i < r.size ∧ (r.cell column i).isNull = false := by
  simp [presentRows]

theorem nodup_presentRows : (presentRows r column).Nodup := List.nodup_range.filter _

theorem lt_size_of_presentRows : ∀ i ∈ presentRows r column, i < r.size :=
  fun _ hi => (mem_presentRows.mp hi).1

theorem presentPositions_cells :
    presentPositions ((List.range r.size).map (r.cell column)) = presentRows r column := by
  have hpairs : ((List.range r.size).map (r.cell column)).zipIdx =
      (List.range r.size).map fun i => (r.cell column i, i) := by
    refine List.ext_getElem (by simp) fun i _ _ => ?_
    simp
  rw [presentPositions, hpairs, List.filterMap_map, presentRows, ← List.filterMap_eq_filter]
  refine List.filterMap_congr fun i _ => ?_
  cases h : (r.cell column i).isNull <;> simp [Option.guard, h]

theorem present_eq_measuredRows : present r (presentRows r column) = measuredRows r column := by
  rw [present, FrameExtent.rowsAt_eq_map lt_size_of_presentRows]
  rfl

theorem cell_measuredRows {j : ℕ} (hj : j < (measuredRows r column).size) (name : String) :
    (measuredRows r column).cell name j =
      r.cell name (Relation.placeAt (presentRows r column) j) :=
  Relation.cell_pick (by simpa [measuredRows] using hj) name

theorem placeAt_mem_presentRows {j : ℕ} (hj : j < (measuredRows r column).size) :
    Relation.placeAt (presentRows r column) j ∈ presentRows r column :=
  Relation.placeAt_mem (by simpa [measuredRows] using hj)

theorem exists_place_of_presentRows {i : ℕ} (hi : i ∈ presentRows r column) :
    ∃ j < (measuredRows r column).size, Relation.placeAt (presentRows r column) j = i := by
  obtain ⟨j, hj, hplace⟩ := Relation.exists_placeAt hi
  exact ⟨j, by simpa [measuredRows] using hj, hplace⟩

theorem wellFormed_measuredRows (hr : r.WellFormed) : (measuredRows r column).WellFormed :=
  Relation.WellFormed.pick lt_size_of_presentRows hr

/-- The measured rows are comparable where the present rows are. -/
theorem comparable_measuredRows : (measuredRows r column).Comparable orderBy ↔
    ∀ k ∈ orderBy, ∀ i ∈ presentRows r column, (r.cell k.column i).comparable?.isSome = true := by
  refine forall₂_congr fun k _ => ⟨fun h i hi => ?_, fun h j hj => ?_⟩
  · obtain ⟨j, hj, rfl⟩ := exists_place_of_presentRows hi
    exact cell_measuredRows hj k.column ▸ h j hj
  · exact cell_measuredRows hj k.column ▸ h _ (placeAt_mem_presentRows hj)

/-- Where the present values all have coordinates, the measured rows are placed. -/
theorem placed_measuredRows (htype : r.schema.typeOf column = .ok type) (hwhole : type.Whole)
    (hc : ∀ i ∈ presentRows r column, (r.cell column i).comparable?.isSome = true) :
    Placed (measuredRows r column) column type := by
  refine ⟨htype, hwhole, fun j hj => ?_, fun j hj => ?_⟩
  · rw [cell_measuredRows hj]
    exact (mem_presentRows.mp (placeAt_mem_presentRows hj)).2
  · rw [cell_measuredRows hj]
    exact hc _ (placeAt_mem_presentRows hj)

theorem coordinate_eq_pointAt (hr : r.WellFormed) (htype : r.schema.typeOf column = .ok type)
    (hwhole : type.Whole) {i : ℕ} (hi : i ∈ presentRows r column)
    (hc : (r.cell column i).comparable?.isSome = true) :
    (r.cell column i).coordinate type = .ok (.int (pointAt r column i)) :=
  Value.coordinate_eq hwhole (hr.conforms_cell htype i) (mem_presentRows.mp hi).2 hc

/-- A line has the present rows of one partition. -/
theorem line_perm (hr : r.WellFormed)
    (hparts : Arrangement.positions (measuredRows r column) partitionBy orderBy = .ok parts)
    {p : Partition} (hp : p ∈ parts) :
    (p.positions.map (Relation.placeAt (presentRows r column))).Perm
      ((presentRows r column).filter fun i => Value.sameKeys (r.cells partitionBy i) p.key) := by
  rw [← Relation.positionsOf_pick]
  exact (Arrangement.perm_positionsOf (wellFormed_measuredRows hr) hparts hp).map _

/-- Every present row stands in the line of its partition. -/
theorem exists_line (hr : r.WellFormed)
    (hparts : Arrangement.positions (measuredRows r column) partitionBy orderBy = .ok parts)
    {i : ℕ} (hi : i ∈ presentRows r column) :
    ∃ p ∈ parts, (p.positions.map (Relation.placeAt (presentRows r column))).Perm
      ((presentRows r column).filter fun j =>
        Value.sameKeys (r.cells partitionBy j) (r.cells partitionBy i)) := by
  obtain ⟨j, hj, rfl⟩ := exists_place_of_presentRows hi
  obtain ⟨p, hp, hjp⟩ := exists_partition hparts hj
  have hperm := line_perm hr hparts hp
  have hmem := hperm.mem_iff.mp (List.mem_map.mpr ⟨j, hjp, rfl⟩)
  have hkey : Value.sameKeys (r.cells partitionBy (Relation.placeAt (presentRows r column) j)) p.key =
      true := by simpa using (List.mem_filter.mp hmem).2
  refine ⟨p, hp, hperm.trans (.of_eq (List.filter_congr fun i hi => ?_))⟩
  rw [Bool.eq_iff_iff]
  exact ⟨fun h => Value.sameKeys_trans h (Value.sameKeys_symm hkey),
    fun h => Value.sameKeys_trans h hkey⟩

/-- Ids that number the runs along every line, null for the rows without a value. -/
structure Numbered (r : Relation) (column : String) (lines : List (List ℕ))
    (breaks : ℤ → ℤ → Bool) (ids : List Value) : Prop where
  length : ids.length = r.size
  absent : ∀ i < r.size, (r.cell column i).isNull = true → ids[i]? = some .null
  runs : ∀ line ∈ lines, line.map (ids[·]?) =
    ((runIds breaks (line.map (pointAt r column))).map fun (n : ℕ) => Value.int n).map some

/-- Values at places, and nulls elsewhere. -/
theorem scatter_places {places : List ℕ} {values : List Value} {n : ℕ} (hn : places.Nodup)
    (hlength : values.length = places.length) (hin : ∀ i ∈ places, i < n) :
    (∀ j < places.length,
      (Window.scatter n (places.zip values))[Relation.placeAt places j]? = values[j]?) ∧
    ∀ i < n, i ∉ places → (Window.scatter n (places.zip values))[i]? = some .null := by
  have hkeys : (places.zip values).map Prod.fst = places := List.map_fst_zip hlength.ge
  refine ⟨fun j hj => ?_, fun i hi hout => ?_⟩
  · have hj' : j < values.length := hlength ▸ hj
    have hmem : (places[j], values[j]) ∈ places.zip values := by
      rw [List.mem_iff_getElem]
      exact ⟨j, by simp [hj, hj'], by simp⟩
    have hplace : Relation.placeAt places j = places[j] := by simp [Relation.placeAt, hj]
    have hlookup := Fields.lookup_of_mem (by rwa [hkeys]) hmem
    simp [hplace, Window.scatter, hin _ (List.getElem_mem hj), hlookup, hj']
  · have hnone : (places.zip values).lookup i = none := by
      rw [List.lookup_eq_none_iff]
      intro entry hentry
      exact bne_iff_ne.mpr fun heq => hout (heq ▸ (List.of_mem_zip hentry).1)
    simp [Window.scatter, hi, hnone]

/-- Ids are counted among the measured rows, and put where these rows stand. -/
theorem numberRuns_eq (hcol : column ∈ r.names) (starts : Relation → Result (List Bool))
    {flags : List Bool} {ids : List Value} (hstarts : starts (measuredRows r column) = .ok flags)
    (hids : countStarts (measuredRows r column) partitionBy orderBy flags = .ok ids) :
    numberRuns r partitionBy orderBy column starts =
      .ok (Window.scatter r.size ((presentRows r column).zip ids)) := by
  unfold numberRuns
  simp only [Relation.column_eq_ok hcol, Result.ok_bind, presentPositions_cells,
    present_eq_measuredRows, hstarts, hids]
  rfl

section Numbering

variable (hr : r.WellFormed) (hne : orderBy ≠ []) (hcol : column ∈ r.names)
  (hparts : Arrangement.positions (measuredRows r column) partitionBy orderBy = .ok parts)
include hr hne hcol hparts

/-- Starts that are flagged among the measured rows become ids. -/
theorem exists_numberRuns (starts : Relation → Result (List Bool)) {flags : List Bool}
    (hstarts : starts (measuredRows r column) = .ok flags)
    (hflags : Flagged (measuredRows r column) column parts breaks flags) :
    ∃ ids, numberRuns r partitionBy orderBy column starts = .ok ids ∧
      Numbered r column (linesOf r column parts) breaks ids := by
  have hsize : (measuredRows r column).size = (presentRows r column).length := Relation.size_pick
  obtain ⟨ids, hids, hlength, hcounts⟩ :=
    exists_countStarts (wellFormed_measuredRows hr) hne hparts hflags.length
  have heq := numberRuns_eq hcol starts hstarts hids
  obtain ⟨hplaced, hrest⟩ := scatter_places (n := r.size) nodup_presentRows
    (hlength.trans hsize) lt_size_of_presentRows
  refine ⟨_, heq, by simp [Window.scatter], fun i hi hnull => ?_, ?_⟩
  · exact hrest i hi fun hmem => by simp [(mem_presentRows.mp hmem).2] at hnull
  · intro line hline
    obtain ⟨p, hp, rfl⟩ := List.mem_map.mp hline
    have hin := Arrangement.lt_size_of_positions hparts hp
    have hpoints : (p.positions.map (Relation.placeAt (presentRows r column))).map (pointAt r column) =
        p.positions.map (pointAt (measuredRows r column) column) := by
      rw [List.map_map]
      refine List.map_congr_left fun j hj => ?_
      rw [Function.comp_apply, pointAt, pointAt, cell_measuredRows (hin j hj)]
    have hmarks : (p.positions.map fun i => flags[i]?.getD false) =
        runStarts breaks (p.positions.map (pointAt (measuredRows r column) column)) := by
      have h := congrArg (List.map fun o => o.getD false) (hflags.starts p hp)
      simpa [Function.comp_def] using h
    rw [hpoints, ← prefixCounts_runStarts, ← hmarks, ← hcounts p hp, List.map_map]
    exact List.map_congr_left fun j hj => hplaced j (hsize ▸ hin j hj)

end Numbering

section Criteria

variable {criterion : StreakCriterion} {gapInclusive : Bool}

theorem distance_eq {o : Offset} (h : o.Measures type) (role : String) :
    distance role type o = .ok (.whole (o.length type)) := by
  cases o with
  | whole n =>
    rcases h with rfl | rfl | rfl <;> simp [distance, Offset.inUnitsOf, Offset.quantity?, Offset.length]
  | duration m =>
    cases h
    simp [distance, Offset.inUnitsOf, Offset.quantity?, Offset.length]
  | real x => exact h.elim

theorem measured_eq_ok {schema : Schema} {named : Option String}
    (htype : schema.typeOf column = .ok type) (hwhole : type.Whole)
    (hnamed : named.or (orderBy.head?.map OrderKey.column) = some column) :
    measured schema orderBy named = .ok (column, type) := by
  obtain ⟨c, hfind, rfl⟩ : ∃ c, schema.find? column = some c ∧ c.type = type := by
    simpa [Schema.typeOf, Schema.column, Result.bind_eq_ok, Result.orElse_eq_ok] using htype
  have hmeasurable : c.type.isMeasurable = true := by
    rcases hwhole with h | h | h <;> rw [h] <;> rfl
  cases named with
  | some name =>
    obtain rfl : name = column := by simpa using hnamed
    simp [measured, hfind, hmeasurable]
  | none =>
    cases orderBy with
    | nil => simp at hnamed
    | cons k rest =>
      obtain rfl : k.column = column := by simpa using hnamed
      simp [measured, hfind, hmeasurable]

/-- Where a criterion by coordinates starts runs. -/
def startsBy (partitionBy : List String) (orderBy : List OrderKey) (column : String)
    (type : ColumnType) (gapInclusive : Bool) : StreakCriterion → Relation → Result (List Bool)
  | .qualifying _, _ => .ok []
  | .consecutive _ step, rows =>
    let d := (step.getD (.whole 1)).length type
    consecutiveStarts rows partitionBy orderBy column type
      (.whole (if stepsDown orderBy column then -d else d))
  | .gap _ tolerance inclusive, rows =>
    gapStarts rows partitionBy orderBy column type (.whole (tolerance.length type))
      (inclusive.getD gapInclusive)

theorem exists_startsBy (hr : r.WellFormed) (hne : orderBy ≠ [])
    (hparts : Arrangement.positions r partitionBy orderBy = .ok parts) (hplaced : Placed r column type)
    (h : criterion.Measures type) :
    ∃ flags, startsBy partitionBy orderBy column type gapInclusive criterion r = .ok flags ∧
      Flagged r column parts (criterion.breaks type (stepsDown orderBy column) gapInclusive) flags := by
  cases criterion with
  | qualifying test => exact h.elim
  | consecutive named step => exact exists_consecutiveStarts hr hne hparts hplaced _
  | gap named tolerance inclusive => exact exists_gapStarts hr hne hparts hplaced _ _

theorem exists_positions_of_startsBy (h : criterion.Measures type) {flags : List Bool}
    (hflags : startsBy partitionBy orderBy column type gapInclusive criterion r = .ok flags) :
    ∃ parts, Arrangement.positions r partitionBy orderBy = .ok parts := by
  have hevaluate : ∀ spec values, Window.evaluate r spec = .ok values →
      ∃ parts, Arrangement.positions r spec.partitionBy spec.orderBy = .ok parts := by
    intro spec values hvalues
    obtain ⟨frame, -, hrest⟩ := Result.bind_eq_ok.mp hvalues
    obtain ⟨parts, hparts, -⟩ := Result.bind_eq_ok.mp hrest
    exact ⟨parts, hparts⟩
  cases criterion with
  | qualifying test => exact h.elim
  | consecutive named step =>
    obtain ⟨numbers, hnumbers, -⟩ := Result.bind_eq_ok.mp hflags
    exact hevaluate _ _ hnumbers
  | gap named tolerance inclusive =>
    obtain ⟨previous, hprevious, -⟩ := Result.bind_eq_ok.mp hflags
    exact hevaluate _ _ hprevious

variable (hne : orderBy ≠ [])
  (hnamed : criterion.column?.or (orderBy.head?.map OrderKey.column) = some column)
  (htype : r.schema.typeOf column = .ok type) (h : criterion.Measures type)
include hne hnamed htype h

/-- Ids by coordinates number the runs that the criterion starts. -/
theorem ids_eq_numberRuns : ids r partitionBy orderBy criterion gapInclusive =
    numberRuns r partitionBy orderBy column
      (startsBy partitionBy orderBy column type gapInclusive criterion) := by
  have hsome : orderBy.isEmpty = false := by simpa using hne
  have hmeasured := measured_eq_ok htype h.whole hnamed
  cases criterion with
  | qualifying test => exact h.elim
  | consecutive named step =>
    rw [StreakCriterion.column?] at hmeasured
    have hsigned : (if stepsDown orderBy column then
        (Quantity.whole ((step.getD (.whole 1)).length type)).neg
        else .whole ((step.getD (.whole 1)).length type)) =
      .whole (if stepsDown orderBy column then -(step.getD (.whole 1)).length type
        else (step.getD (.whole 1)).length type) := by
      split <;> rfl
    simp only [ids, hsome, Bool.false_eq_true, if_false, hmeasured, Result.ok_bind, distance_eq h,
      hsigned]
    rfl
  | gap named tolerance inclusive =>
    rw [StreakCriterion.column?] at hmeasured
    simp only [ids, hsome, Bool.false_eq_true, if_false, hmeasured, Result.ok_bind, distance_eq h]
    rfl

/-- Where the present values have coordinates, measured runs are numbered. -/
theorem exists_ids (hr : r.WellFormed)
    (hparts : Arrangement.positions (measuredRows r column) partitionBy orderBy = .ok parts)
    (hc : ∀ i ∈ presentRows r column, (r.cell column i).comparable?.isSome = true) :
    ∃ numbers, ids r partitionBy orderBy criterion gapInclusive = .ok numbers ∧
      Numbered r column (linesOf r column parts)
        (criterion.breaks type (stepsDown orderBy column) gapInclusive) numbers := by
  have hplaced := placed_measuredRows htype h.whole hc
  obtain ⟨flags, hflags, hflagged⟩ :=
    exists_startsBy (wellFormed_measuredRows hr) hne hparts hplaced h
  rw [ids_eq_numberRuns hne hnamed htype h]
  exact exists_numberRuns hr hne (Schema.mem_names_of_typeOf htype) hparts _ hflags hflagged

/-- Ids need an arrangement of the measured rows. -/
theorem exists_positions_of_ids {numbers : List Value}
    (hnumbers : ids r partitionBy orderBy criterion gapInclusive = .ok numbers) :
    ∃ parts, Arrangement.positions (measuredRows r column) partitionBy orderBy = .ok parts := by
  simp only [ids_eq_numberRuns hne hnamed htype h, numberRuns,
    Relation.column_eq_ok (Schema.mem_names_of_typeOf htype), Result.ok_bind, presentPositions_cells,
    present_eq_measuredRows] at hnumbers
  obtain ⟨flags, hflags, -⟩ := Result.bind_eq_ok.mp hnumbers
  exact exists_positions_of_startsBy h hflags

end Criteria
end Streak
end OrderedRelations
