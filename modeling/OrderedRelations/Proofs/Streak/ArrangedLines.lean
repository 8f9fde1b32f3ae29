import OrderedRelations.Proofs.Streak.NumberedRuns

/-!
# Lines of an arrangement

The rows that have a measured value stand, among themselves, as they do in the arrangement of all
rows. So their ids can be read along the partitions of the relation itself, and depend on nothing but
these rows.
-/

namespace OrderedRelations

namespace Relation

variable {r : Relation} {orderBy : List OrderKey}

/-- Rows that are left out of a sorted list leave the others as sorted by themselves. -/
theorem filter_mergeSort (hsorts : r.SortsBy orderBy) {rows : List ℕ} (hrows : rows.Pairwise (· < ·))
    (keep : ℕ → Bool) :
    (rows.mergeSort fun i j => !r.keysBefore orderBy j i).filter keep =
      (rows.filter keep).mergeSort fun i j => !r.keysBefore orderBy j i :=
  hsorts.eq_mergeSort (hrows.filter _) ((List.mergeSort_perm _ _).filter _)
    ((hsorts.pairwise_mergeSort hrows).filter _)

end Relation

namespace Streak

section Steps

variable {α : Type} {breaks : α → α → Bool}

theorem runIds_zero {l : List α} (h : 0 < l.length) : (runIds breaks l)[0]? = some 1 := by
  simp [runIds, h]

theorem runIds_succ {l : List α} {k : ℕ} {a b : α} (h : (neighbours l)[k]? = some (a, b)) :
    ∃ n, (runIds breaks l)[k]? = some n ∧
      (runIds breaks l)[k + 1]? = some (n + if breaks a b then 1 else 0) := by
  obtain ⟨hk, -⟩ := List.getElem?_eq_some_iff.mp h
  rw [length_neighbours] at hk
  have hlast : k + 1 < l.length := by omega
  refine ⟨1 + ((neighbours l).take k).countP fun p => breaks p.1 p.2, ?_, ?_⟩
  · simp [runIds, Nat.lt_of_succ_lt hlast]
  · simp [runIds, hlast, List.take_add_one, h, List.countP_append, Nat.add_assoc]

end Steps

variable {r : Relation} {partitionBy : List String} {orderBy : List OrderKey}
  {parts : List Partition} {column : String} {type : ColumnType}

/-- The rows of an arranged partition that have a measured value. -/
def measuredLine (r : Relation) (column : String) (p : Partition) : List ℕ :=
  p.positions.filter fun i => !(r.cell column i).isNull

theorem mem_measuredLine (hparts : Arrangement.positions r partitionBy orderBy = .ok parts)
    {p : Partition} (hp : p ∈ parts) {i : ℕ} (hi : i ∈ measuredLine r column p) :
    i ∈ presentRows r column := by
  obtain ⟨hip, hpresent⟩ := List.mem_filter.mp hi
  exact mem_presentRows.mpr
    ⟨Arrangement.lt_size_of_positions hparts hp i hip, by simpa using hpresent⟩

section Lines

variable (hr : r.WellFormed) (hnan : r.NaNFree orderBy) {parts' : List Partition}
  (hparts : Arrangement.positions (measuredRows r column) partitionBy orderBy = .ok parts)
  (hparts' : Arrangement.positions r partitionBy orderBy = .ok parts')
include hr hnan hparts hparts'

/-- A partition of the measured rows is that of all rows, less the rows without a value. -/
theorem line_eq {p q : Partition} (hp : p ∈ parts) (hq : q ∈ parts')
    (hkey : Value.sameKeys p.key q.key = true) :
    p.positions.map (Relation.placeAt (presentRows r column)) = measuredLine r column q := by
  obtain ⟨hpartition, ho, -⟩ := Arrangement.passed_of_positions hparts'
  have hsorts := hr.sortsBy ho hnan
  have hmeasured : (measuredRows r column).WellFormed := wellFormed_measuredRows hr
  obtain ⟨-, rfl⟩ := Arrangement.eq_arranged_of_positions (r := measuredRows r column) hpartition ho
    (hmeasured.sortsBy ho (hnan.pick lt_size_of_presentRows)) hparts
  obtain ⟨-, rfl⟩ := Arrangement.eq_arranged_of_positions hpartition ho hsorts hparts'
  have hclass : (presentRows r column).filter (fun i => Value.sameKeys (r.cells partitionBy i) q.key) =
      (r.positionsOf partitionBy q.key).filter fun i => !(r.cell column i).isNull := by
    rw [presentRows, Relation.positionsOf, List.filter_filter, List.filter_filter]
    simp only [Bool.and_comm]
  rw [measuredLine, Arrangement.positions_of_mem_arranged hr hpartition hq, Relation.arrangedAt,
    Relation.filter_mergeSort hsorts Relation.sorted_positionsOf, ← hclass,
    ← Relation.arrangedAt_pick, Arrangement.positions_of_mem_arranged hmeasured hpartition hp,
    Relation.arrangedAt_congr hkey]
  rfl

theorem measuredLine_mem {q : Partition} (hq : q ∈ parts') (hne : measuredLine r column q ≠ []) :
    measuredLine r column q ∈ linesOf r column parts := by
  obtain ⟨i, hi⟩ := List.exists_mem_of_ne_nil _ hne
  have hiq := List.mem_of_mem_filter hi
  obtain ⟨j, hj, rfl⟩ := exists_place_of_presentRows (mem_measuredLine hparts' hq hi)
  obtain ⟨p, hp, hjp⟩ := exists_partition hparts hj
  have hkey : Value.sameKeys p.key q.key = true := by
    have hpkey := ((Arrangement.mem_positions_iff (wellFormed_measuredRows hr) hparts hp).mp hjp).2
    have hqkey := ((Arrangement.mem_positions_iff hr hparts' hq).mp hiq).2
    rw [measuredRows, Relation.cells_pick (by simpa [measuredRows] using hj)] at hpkey
    exact Value.sameKeys_trans (Value.sameKeys_symm hpkey) hqkey
  exact List.mem_map.mpr ⟨p, hp, line_eq hr hnan hparts hparts' hp hq hkey⟩

end Lines

/-- Ids along lines of rows that begin with one each and go on to the next number wherever the
coordinates of two neighbours do not belong together. The rows without a measured value have none. -/
structure LineNumbered (r : Relation) (column : String) (type : ColumnType)
    (together : ℤ → ℤ → Bool) (lines : List (List ℕ)) (ids : List Value) : Prop where
  length : ids.length = r.size
  absent : ∀ i < r.size, ids[i]? = some .null ↔ (r.cell column i).isNull = true
  first : ∀ rows ∈ lines, ∀ i ∈ rows.head?, ids[i]? = some (.int 1)
  next : ∀ rows ∈ lines, ∀ k, (h : k + 1 < rows.length) → ∃ n x y : ℤ,
    (r.cell column rows[k]).coordinate type = .ok (.int x) ∧
    (r.cell column rows[k + 1]).coordinate type = .ok (.int y) ∧
    ids[rows[k]]? = some (.int n) ∧
    ids[rows[k + 1]]? = some (.int (if together x y then n else n + 1))
  gapless : ∀ rows ∈ lines, ∃ m : ℕ, ∀ n : ℤ,
    (∃ i ∈ rows, ids[i]? = some (.int n)) ↔ 1 ≤ n ∧ n ≤ m

/-- Ids along lines of rows that begin with one each and go on to the next number wherever two
neighbours are not a step apart. The rows without a measured value have none. -/
structure StepNumbered (r : Relation) (column : String) (type : ColumnType) (step : ℤ)
    (lines : List (List ℕ)) (ids : List Value) : Prop where
  length : ids.length = r.size
  absent : ∀ i < r.size, ids[i]? = some .null ↔ (r.cell column i).isNull = true
  first : ∀ rows ∈ lines, ∀ i ∈ rows.head?, ids[i]? = some (.int 1)
  next : ∀ rows ∈ lines, ∀ k, (h : k + 1 < rows.length) → ∃ n x y : ℤ,
    (r.cell column rows[k]).coordinate type = .ok (.int x) ∧
    (r.cell column rows[k + 1]).coordinate type = .ok (.int y) ∧
    ids[rows[k]]? = some (.int n) ∧
    ids[rows[k + 1]]? = some (.int (if y - x = step then n else n + 1))
  gapless : ∀ rows ∈ lines, ∃ m : ℕ, ∀ n : ℤ,
    (∃ i ∈ rows, ids[i]? = some (.int n)) ↔ 1 ≤ n ∧ n ≤ m

section Numbers

variable {lines : List (List ℕ)} {breaks : ℤ → ℤ → Bool} {ids : List Value} {rows : List ℕ}

theorem Numbered.id_eq (h : Numbered r column lines breaks ids) (hline : rows ∈ lines) {k n : ℕ}
    (hk : k < rows.length) (hn : (runIds breaks (rows.map (pointAt r column)))[k]? = some n) :
    ids[rows[k]]? = some (.int n) := by
  have hplace := congrArg (·[k]?) (h.runs rows hline)
  simpa only [List.getElem?_map, List.getElem?_eq_getElem hk, hn, Option.map_some,
    Option.some.injEq] using hplace

theorem Numbered.first_id (h : Numbered r column lines breaks ids) (hline : rows ∈ lines) :
    ∀ i ∈ rows.head?, ids[i]? = some (.int 1) := by
  intro i hi
  obtain ⟨rest, rfl⟩ := List.head?_eq_some_iff.mp hi
  exact h.id_eq hline (by simp) (runIds_zero (by simp))

theorem Numbered.next_id (h : Numbered r column lines breaks ids) (hline : rows ∈ lines) {k : ℕ}
    (hk : k + 1 < rows.length) : ∃ n : ℤ, ids[rows[k]]? = some (.int n) ∧
      ids[rows[k + 1]]? = some (.int
        (if breaks (pointAt r column rows[k]) (pointAt r column rows[k + 1]) then n + 1 else n)) := by
  have hpair : (neighbours (rows.map (pointAt r column)))[k]? =
      some (pointAt r column rows[k], pointAt r column rows[k + 1]) := by
    rw [neighbours, List.getElem?_eq_some_iff]
    exact ⟨by simp; omega, by simp⟩
  obtain ⟨n, hn, hn'⟩ := @runIds_succ ℤ breaks _ _ _ _ hpair
  refine ⟨n, h.id_eq hline (Nat.lt_of_succ_lt hk) hn, ?_⟩
  rw [h.id_eq hline hk hn']
  split <;> simp

theorem Numbered.ids_gapless (h : Numbered r column lines breaks ids) (hline : rows ∈ lines)
    (hne : rows ≠ []) : ∃ m : ℕ, ∀ n : ℤ, (∃ i ∈ rows, ids[i]? = some (.int n)) ↔ 1 ≤ n ∧ n ≤ m := by
  have hpoints : rows.map (pointAt r column) ≠ [] := by simpa using hne
  refine ⟨runCount breaks (rows.map (pointAt r column)), fun n => ?_⟩
  have hids : (∃ i ∈ rows, ids[i]? = some (.int n)) ↔
      ∃ m ∈ runIds breaks (rows.map (pointAt r column)), (m : ℤ) = n := by
    rw [← List.mem_map, h.runs rows hline]
    simp
  rw [hids]
  constructor
  · rintro ⟨m, hm, rfl⟩
    have hbounds := (mem_runIds hpoints).mp hm
    omega
  · rintro ⟨hfirst, hlast⟩
    exact ⟨n.toNat, (mem_runIds hpoints).mpr (by omega), by omega⟩

/-- Runs numbered along the measured rows are numbered along the partitions of all rows. -/
theorem Numbered.lineNumbered {together : ℤ → ℤ → Bool} {parts' : List Partition}
    (htogether : ∀ x y, breaks x y = !together x y) (hr : r.WellFormed) (hnan : r.NaNFree orderBy)
    (hparts : Arrangement.positions (measuredRows r column) partitionBy orderBy = .ok parts)
    (hparts' : Arrangement.positions r partitionBy orderBy = .ok parts')
    (htype : r.schema.typeOf column = .ok type) (hwhole : type.Whole)
    (hc : ∀ i ∈ presentRows r column, (r.cell column i).comparable?.isSome = true)
    (h : Numbered r column (linesOf r column parts) breaks ids) :
    LineNumbered r column type together (parts'.map (measuredLine r column)) ids := by
  have hlines : ∀ rows ∈ parts'.map (measuredLine r column), rows ≠ [] →
      rows ∈ linesOf r column parts := by
    intro rows hline hne
    obtain ⟨q, hq, rfl⟩ := List.mem_map.mp hline
    exact measuredLine_mem hr hnan hparts hparts' hq hne
  have hpoint : ∀ rows ∈ parts'.map (measuredLine r column), ∀ i ∈ rows,
      (r.cell column i).coordinate type = .ok (.int (pointAt r column i)) := by
    intro rows hline i hi
    obtain ⟨q, hq, rfl⟩ := List.mem_map.mp hline
    have hpresent := mem_measuredLine hparts' hq hi
    exact coordinate_eq_pointAt hr htype hwhole hpresent (hc i hpresent)
  refine ⟨h.length, fun i hi => ⟨fun hnone => ?_, h.absent i hi⟩, fun rows hline i hi => ?_,
    fun rows hline k hk => ?_, fun rows hline => ?_⟩
  · by_contra hnull
    obtain ⟨q, hq, hiq⟩ := exists_partition hparts' hi
    have hmem : i ∈ measuredLine r column q := List.mem_filter.mpr ⟨hiq, by simpa using hnull⟩
    have hid : some .null ∈ (measuredLine r column q).map (ids[·]?) :=
      List.mem_map.mpr ⟨i, hmem, hnone⟩
    rw [h.runs _ (hlines _ (List.mem_map.mpr ⟨q, hq, rfl⟩) (List.ne_nil_of_mem hmem))] at hid
    simp at hid
  · exact h.first_id (hlines rows hline (List.ne_nil_of_mem (List.mem_of_head? hi))) i hi
  · obtain ⟨n, hn, hn'⟩ := h.next_id (hlines rows hline (List.ne_nil_of_length_pos (by omega))) hk
    refine ⟨n, _, _, hpoint rows hline _ (List.getElem_mem _), hpoint rows hline _ (List.getElem_mem _),
      hn, ?_⟩
    rw [hn', htogether]
    cases together _ _ <;> rfl
  · rcases eq_or_ne rows [] with rfl | hne
    · exact ⟨0, fun n => by simp; omega⟩
    · exact h.ids_gapless (hlines rows hline hne) hne

theorem Numbered.stepNumbered {step : ℤ} {parts' : List Partition} (hr : r.WellFormed)
    (hnan : r.NaNFree orderBy)
    (hparts : Arrangement.positions (measuredRows r column) partitionBy orderBy = .ok parts)
    (hparts' : Arrangement.positions r partitionBy orderBy = .ok parts')
    (htype : r.schema.typeOf column = .ok type) (hwhole : type.Whole)
    (hc : ∀ i ∈ presentRows r column, (r.cell column i).comparable?.isSome = true)
    (h : Numbered r column (linesOf r column parts) (stepBreaks step) ids) :
    StepNumbered r column type step (parts'.map (measuredLine r column)) ids := by
  have htogether : ∀ x y, stepBreaks step x y = !decide (y - x = step) := fun x y => decide_not
  have hline := h.lineNumbered htogether hr hnan hparts hparts' htype hwhole hc
  exact ⟨hline.length, hline.absent, hline.first, by simpa using hline.next, hline.gapless⟩

end Numbers

/-- The rows that have a value in a column, in order. -/
def valuedRows (r : Relation) (column : String) : List (List Value) :=
  r.rows.filter fun row => !(r.schema.cell row column).isNull

theorem measuredRows_eq (r : Relation) (column : String) :
    measuredRows r column = ⟨r.schema, valuedRows r column⟩ := by
  rw [valuedRows, Relation.filter_rows]
  rfl

/-- Values put at places are read back in the order of the places. -/
theorem map_scatter {places : List ℕ} {values : List Value} {n : ℕ} (hn : places.Nodup)
    (hlength : values.length = places.length) (hin : ∀ i ∈ places, i < n) :
    places.map ((Window.scatter n (places.zip values))[·]?) = values.map some := by
  refine List.ext_getElem (by simp [hlength]) fun j hj hj' => ?_
  have hj : j < places.length := by simpa using hj
  have hplace := (scatter_places hn hlength hin).1 j hj
  simpa [Relation.placeAt, hj, hlength] using hplace

section Independence

variable {criterion : StreakCriterion} {gapInclusive : Bool} (hne : orderBy ≠ [])
  (hnamed : criterion.column?.or (orderBy.head?.map OrderKey.column) = some column)
  (htype : r.schema.typeOf column = .ok type) (h : criterion.Measures type) (hr : r.WellFormed)
  (hparts : Arrangement.positions (measuredRows r column) partitionBy orderBy = .ok parts)
  (hc : ∀ i ∈ presentRows r column, (r.cell column i).comparable?.isSome = true)
include hne hnamed htype h hr hparts hc

/-- The measured rows alone settle their ids, wherever they stand among other rows. -/
theorem exists_measuredIds : ∃ measuredIds : List Value, ∀ s : Relation, s.schema = r.schema →
    valuedRows s column = valuedRows r column →
      ∃ numbers, ids s partitionBy orderBy criterion gapInclusive = .ok numbers ∧
        (presentRows s column).map (numbers[·]?) = measuredIds.map some := by
  obtain ⟨flags, hflags, hflagged⟩ : ∃ flags,
      startsBy partitionBy orderBy column type gapInclusive criterion (measuredRows r column) =
        .ok flags ∧ Flagged (measuredRows r column) column parts
          (criterion.breaks type (stepsDown orderBy column) gapInclusive) flags :=
    exists_startsBy (wellFormed_measuredRows hr) hne hparts (placed_measuredRows htype h.whole hc) h
  obtain ⟨measuredIds, hids, hlength, -⟩ :=
    exists_countStarts (wellFormed_measuredRows hr) hne hparts hflagged.length
  refine ⟨measuredIds, fun s hschema hvalued => ?_⟩
  have hrows : measuredRows s column = measuredRows r column := by
    rw [measuredRows_eq, measuredRows_eq, hschema, hvalued]
  rw [← hrows] at hflags hids hlength
  have htype' : s.schema.typeOf column = .ok type := hschema ▸ htype
  refine ⟨_, (ids_eq_numberRuns hne hnamed htype' h).trans
    (numberRuns_eq (Schema.mem_names_of_typeOf htype') _ hflags hids), ?_⟩
  exact map_scatter nodup_presentRows (hlength.trans Relation.size_pick)
    lt_size_of_presentRows

end Independence

/-- Streaks by coordinates are numbered along the arrangement of all rows, and the rows without a
value play no part in them. -/
theorem exists_lineNumbered {criterion : StreakCriterion} {gapInclusive : Bool}
    {together : ℤ → ℤ → Bool} (hr : r.WellFormed) (hne : orderBy ≠ [])
    (hpartition : ∀ name ∈ partitionBy, name ∈ r.names) (ho : ∀ k ∈ orderBy, k.column ∈ r.names)
    (hnan : r.NaNFree orderBy) (hc : r.Comparable orderBy)
    (hnamed : criterion.column?.or (orderBy.head?.map OrderKey.column) = some column)
    (htype : r.schema.typeOf column = .ok type) (h : criterion.Measures type)
    (hpoints : ∀ i ∈ presentRows r column, (r.cell column i).comparable?.isSome = true)
    (htogether : ∀ x y,
      criterion.breaks type (stepsDown orderBy column) gapInclusive x y = !together x y) :
    ∃ parts numbers, Arrangement.positions r partitionBy orderBy = .ok parts ∧
      ids r partitionBy orderBy criterion gapInclusive = .ok numbers ∧
      LineNumbered r column type together (parts.map (measuredLine r column)) numbers ∧
      ∀ s : Relation, s.schema = r.schema → valuedRows s column = valuedRows r column →
        ∃ numbers', ids s partitionBy orderBy criterion gapInclusive = .ok numbers' ∧
          (presentRows s column).map (numbers'[·]?) = (presentRows r column).map (numbers[·]?) := by
  have hparts := Arrangement.positions_eq_passed hpartition ho hc
  have hmeasured := Arrangement.positions_eq_passed (r := measuredRows r column) hpartition ho
    (hc.pick lt_size_of_presentRows)
  obtain ⟨numbers, hids, hnumbered⟩ := exists_ids hne hnamed htype h hr hmeasured hpoints
  obtain ⟨measuredIds, hsame⟩ := exists_measuredIds hne hnamed htype h hr hmeasured hpoints
  refine ⟨_, numbers, hparts, hids,
    hnumbered.lineNumbered htogether hr hnan hmeasured hparts htype h.whole hpoints, ?_⟩
  intro s hschema hvalued
  obtain ⟨numbers', hids', hvalues'⟩ := hsame s hschema hvalued
  obtain ⟨own, hown, hvalues⟩ := hsame r rfl rfl
  cases hids.symm.trans hown
  exact ⟨numbers', hids', hvalues'.trans hvalues.symm⟩

end Streak
end OrderedRelations
