import OrderedRelations.Proofs.Streak.NumberedRuns

/-!
# Runs in the other direction

Where no two rows of a partition share a coordinate, descending order is ascending order backwards.
A run of steps down is one of steps up, and gaps have no direction, so the groups are the same and
their ids count from the other end.
-/

namespace OrderedRelations.Streak

def idOf? : Value → Option ℤ
  | .int n => some n
  | _ => none

/-- The id of a row that has one. -/
def idAt (numbers : List Value) (i : ℕ) : Option ℤ := numbers[i]?.bind idOf?

/-- How many ids some rows have. -/
def groupCount (numbers : List Value) (rows : List ℕ) : ℕ := (rows.filterMap (idAt numbers)).dedup.length

/-- No two rows of a partition that have a value in a column share its coordinate. -/
def CoordinatesApart (r : Relation) (partitionBy : List String) (column : String)
    (type : ColumnType) : Prop :=
  ∀ i ∈ presentRows r column, ∀ j ∈ presentRows r column, i ≠ j →
    Value.sameKeys (r.cells partitionBy i) (r.cells partitionBy j) = true →
      ∀ x, (r.cell column i).coordinate type = .ok x → (r.cell column j).coordinate type ≠ .ok x

variable {r : Relation} {partitionBy : List String} {parts : List Partition} {column : String}
  {type : ColumnType} {direction : SortDirection} {nulls : NullPlacement}

/-- Coordinates exist where moments have comparable forms. -/
theorem exists_coordinate_iff (hwhole : type.Whole) {v : Value} (hv : v.conforms type = true)
    (hnull : v.isNull = false) :
    (∃ x, v.coordinate type = .ok x) ↔ v.comparable?.isSome = true := by
  refine ⟨fun ⟨x, hx⟩ => ?_, fun hc => ⟨_, Value.coordinate_eq hwhole hv hnull hc⟩⟩
  cases v with
  | datetime t =>
    cases hu : t.utc? with
    | some u => simp [Value.comparable?, hu]
    | none => rcases hwhole with rfl | rfl | rfl <;> simp [Value.conforms, Value.coordinate, hu] at hv hx
  | _ => rfl

/-- Rows are apart where their points are. -/
theorem coordinatesApart_of_points (hr : r.WellFormed) (htype : r.schema.typeOf column = .ok type)
    (hwhole : type.Whole) (h : ∀ i ∈ presentRows r column, ∀ j ∈ presentRows r column, i ≠ j →
      Value.sameKeys (r.cells partitionBy i) (r.cells partitionBy j) = true →
        pointAt r column i ≠ pointAt r column j) : CoordinatesApart r partitionBy column type := by
  have hpoint : ∀ i ∈ presentRows r column, ∀ x, (r.cell column i).coordinate type = .ok x →
      x = .int (pointAt r column i) := by
    intro i hi x hx
    have hc := (exists_coordinate_iff hwhole (hr.conforms_cell htype i)
      (mem_presentRows.mp hi).2).mp ⟨x, hx⟩
    exact Except.ok.inj (hx.symm.trans (coordinate_eq_pointAt hr htype hwhole hi hc))
  intro i hi j hj hne hsame x hx hx'
  have heq := (hpoint i hi x hx).symm.trans (hpoint j hj x hx')
  exact h i hi j hj hne hsame (by simpa using heq)

/-- Along a line that one key has put in order, the coordinates ascend, or descend. -/
theorem line_sorted (hr : r.WellFormed) (htype : r.schema.typeOf column = .ok type)
    (hwhole : type.Whole) (hapart : CoordinatesApart r partitionBy column type)
    (hparts : Arrangement.positions (measuredRows r column) partitionBy [⟨column, direction, nulls⟩] =
      .ok parts) {p : Partition} (hp : p ∈ parts) :
    (p.positions.map (Relation.placeAt (presentRows r column))).Pairwise fun i j =>
      if direction = .desc then pointAt r column j < pointAt r column i
      else pointAt r column i < pointAt r column j := by
  obtain ⟨hcolumns, -, hcomparable, -⟩ := Arrangement.passed_of_positions hparts
  have hin := Arrangement.lt_size_of_positions hparts hp
  have hsorted := (FrameExtent.arranged_of_positions (wellFormed_measuredRows hr) hcolumns hparts hp
    htype hwhole).2.sorted
  have hperm := line_perm hr hparts hp
  have hnodup : (p.positions.map (Relation.placeAt (presentRows r column))).Nodup :=
    hperm.nodup_iff.mpr (nodup_presentRows.filter _)
  have hpoint : ∀ i ∈ presentRows r column,
      (r.cell column i).coordinate type = .ok (.int (pointAt r column i)) := by
    intro i hi
    exact coordinate_eq_pointAt hr htype hwhole hi
      (comparable_measuredRows.mp hcomparable _ (List.mem_singleton.mpr rfl) i hi)
  rw [List.Nodup, List.pairwise_map] at hnodup
  rw [List.pairwise_map] at hsorted ⊢
  refine (hsorted.and hnodup).imp_of_mem fun {i j} hi hj h => ?_
  obtain ⟨hle, hne⟩ := h
  rw [cell_measuredRows (hin i hi), cell_measuredRows (hin j hj)] at hle
  have hpresent := fun k hk => List.mem_filter.mp (hperm.mem_iff.mp (List.mem_map.mpr ⟨k, hk, rfl⟩))
  obtain ⟨hi, hikey⟩ := hpresent i hi
  obtain ⟨hj, hjkey⟩ := hpresent j hj
  have hsame := Value.sameKeys_trans hikey (Value.sameKeys_symm hjkey)
  have happart : pointAt r column (Relation.placeAt (presentRows r column) i) ≠
      pointAt r column (Relation.placeAt (presentRows r column) j) := fun heq =>
    hapart _ hi _ hj hne hsame _ (hpoint _ hi) (heq ▸ hpoint _ hj)
  rw [OrderKey.spot, OrderKey.spot, OrderKey.level_of_not_null _ (mem_presentRows.mp hi).2,
    OrderKey.level_of_not_null _ (mem_presentRows.mp hj).2] at hle
  rw [Prod.Lex.toLex_le_toLex] at hle
  unfold pointAt at happart ⊢
  cases direction with
  | asc =>
    have hle := by simpa [OrderKey.signed, OrderKey.descending] using hle
    simpa using lt_of_le_of_ne hle happart
  | desc =>
    have hle := by simpa [OrderKey.signed, OrderKey.descending] using hle
    simpa using lt_of_le_of_ne hle happart.symm

/-- A line in descending order is one in ascending order backwards. -/
theorem exists_line_reverse (hr : r.WellFormed) (htype : r.schema.typeOf column = .ok type)
    (hwhole : type.Whole) (hapart : CoordinatesApart r partitionBy column type)
    {up down : List Partition} {nulls' : NullPlacement}
    (hup : Arrangement.positions (measuredRows r column) partitionBy [⟨column, .asc, nulls⟩] = .ok up)
    (hdown : Arrangement.positions (measuredRows r column) partitionBy [⟨column, .desc, nulls'⟩] =
      .ok down) {i : ℕ} (hi : i ∈ presentRows r column) :
    ∃ line ∈ linesOf r column up, line.reverse ∈ linesOf r column down ∧
      line.Perm ((presentRows r column).filter fun j =>
        Value.sameKeys (r.cells partitionBy j) (r.cells partitionBy i)) := by
  obtain ⟨p, hp, hperm⟩ := exists_line hr hup hi
  obtain ⟨q, hq, hperm'⟩ := exists_line hr hdown hi
  have hascends : (p.positions.map (Relation.placeAt (presentRows r column))).Pairwise
      fun i j => pointAt r column i < pointAt r column j := by
    simpa using line_sorted hr htype hwhole hapart hup hp
  have hdescends : (q.positions.map (Relation.placeAt (presentRows r column))).reverse.Pairwise
      fun i j => pointAt r column i < pointAt r column j := by
    rw [List.pairwise_reverse]
    simpa using line_sorted hr htype hwhole hapart hdown hq
  have heq : (q.positions.map (Relation.placeAt (presentRows r column))).reverse =
      p.positions.map (Relation.placeAt (presentRows r column)) :=
    ((List.reverse_perm _).trans (hperm'.trans hperm.symm)).eq_of_pairwise
      (fun _ _ _ _ hab hba => absurd hab hba.asymm) hdescends hascends
  refine ⟨_, List.mem_map.mpr ⟨p, hp, rfl⟩, List.mem_map.mpr ⟨q, hq, ?_⟩, hperm⟩
  rw [← heq, List.reverse_reverse]

theorem breaks_mirrored (criterion : StreakCriterion) (gapInclusive : Bool) :
    criterion.breaks type true gapInclusive =
      fun a b => criterion.breaks type false gapInclusive b a := by
  funext a b
  cases criterion with
  | qualifying test => rfl
  | consecutive named step =>
    simp only [StreakCriterion.breaks, stepBreaks, Bool.false_eq_true, if_true, if_false,
      decide_eq_decide]
    omega
  | gap named tolerance inclusive =>
    simp only [StreakCriterion.breaks, gapBreaks, abs_sub_comm]

/-- The ids of a partition are those of its line. -/
theorem groupCount_eq {lines : List (List ℕ)} {breaks : ℤ → ℤ → Bool} {numbers : List Value}
    (h : Numbered r column lines breaks numbers) {line : List ℕ} (hline : line ∈ lines)
    (hne : line ≠ []) {key : List Value} (hperm : line.Perm ((presentRows r column).filter fun j =>
      Value.sameKeys (r.cells partitionBy j) key)) :
    groupCount numbers (r.positionsOf partitionBy key) =
      runCount breaks (line.map (pointAt r column)) := by
  have hids : line.filterMap (idAt numbers) =
      (runIds breaks (line.map (pointAt r column))).map fun (n : ℕ) => (n : ℤ) := by
    calc
      line.filterMap (idAt numbers)
        = (line.map (numbers[·]?)).filterMap fun v => v.bind idOf? := by
          rw [List.filterMap_map]
          rfl
      _ = (runIds breaks (line.map (pointAt r column))).map fun (n : ℕ) => (n : ℤ) := by
          rw [h.runs line hline]
          simp [List.filterMap_map, Function.comp_def, idOf?]
  have hrows : (r.positionsOf partitionBy key).filterMap (idAt numbers) =
      ((presentRows r column).filter fun j =>
        Value.sameKeys (r.cells partitionBy j) key).filterMap (idAt numbers) := by
    rw [Relation.positionsOf, presentRows, List.filterMap_filter, List.filterMap_filter,
      List.filterMap_filter]
    refine List.filterMap_congr fun i hi => ?_
    cases hnull : (r.cell column i).isNull with
    | true => simp [idAt, h.absent i (List.mem_range.mp hi) hnull, idOf?]
    | false => simp
  rw [groupCount, hrows, ← (hperm.filterMap _).dedup.length_eq, hids,
    List.dedup_map_of_injective Nat.cast_injective, List.length_map, length_dedup_runIds (by simpa using hne)]

/-- Ids along a line and along its reverse add up to one more than there are groups. -/
theorem ids_mirrored {lines lines' : List (List ℕ)} {breaks : ℤ → ℤ → Bool}
    {up down : List Value} (hup : Numbered r column lines breaks up)
    (hdown : Numbered r column lines' (fun a b => breaks b a) down) {rows : List ℕ}
    (hline : rows ∈ lines) (hline' : rows.reverse ∈ lines') {i : ℕ} (hi : i ∈ rows) :
    ∃ n : ℤ, up[i]? = some (.int n) ∧
      down[i]? = some (.int (runCount breaks (rows.map (pointAt r column)) + 1 - n)) := by
  obtain ⟨k, hk, rfl⟩ := List.getElem_of_mem hi
  have hbackwards : rows.map (down[·]?) = ((runIds breaks (rows.map (pointAt r column))).map
      fun n => runCount breaks (rows.map (pointAt r column)) + 1 - n).map
        fun (n : ℕ) => some (Value.int n) := by
    have h := hdown.runs _ hline'
    rw [List.map_reverse, List.map_reverse, runIds_reverse, List.map_reverse, List.map_reverse,
      List.reverse_inj] at h
    rw [h, List.map_map, List.map_map, List.map_map]
    rfl
  have hk' : k < (runIds breaks (rows.map (pointAt r column))).length := by simpa using hk
  have hid : up[rows[k]]? = some (.int (runIds breaks (rows.map (pointAt r column)))[k]) := by
    simpa [hk, hk'] using congrArg (·[k]?) (hup.runs rows hline)
  have hle := ((mem_runIds (by simpa using List.ne_nil_of_mem hi)).mp (List.getElem_mem hk')).2
  have hid' := congrArg (·[k]?) hbackwards
  simp only [List.getElem?_map, List.getElem?_eq_getElem hk, List.getElem?_eq_getElem hk',
    Option.map_some, Option.some.injEq] at hid'
  refine ⟨_, hid, ?_⟩
  rw [hid', Nat.cast_sub (by omega)]
  push_cast
  rfl

end OrderedRelations.Streak
