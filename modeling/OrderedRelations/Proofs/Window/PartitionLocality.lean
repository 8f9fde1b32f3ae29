import Mathlib
import OrderedRelations.Proofs.Window.PickedRows
import OrderedRelations.Proofs.Window.WindowSafety

/-!
# Partitions are evaluated by themselves

The values of a window function at the rows of one partition are those that the function has over
these rows alone. So other rows do not matter to a partition, whatever they are and wherever they
stand.
-/

namespace OrderedRelations.Window

/-- What a window function gives for the rows of a key, in the order of the order keys. -/
def resultsAt (r : Relation) (spec : WindowSpec) (frame : Option FrameSpec) (key : List Value) :
    Result (List Value) :=
  evaluateRows r.schema spec (frame.getD spec.defaultFrame)
    (Arrangement.rowsAt r (r.arrangedAt spec.partitionBy spec.orderBy key))

/-- The rows of a key hold values in their order. -/
def HoldsAt (r : Relation) (spec : WindowSpec) (key : List Value) (values results : List Value) :
    Prop :=
  (r.arrangedAt spec.partitionBy spec.orderBy key).map (values[·]?) = results.map some

/-- The test for the rows of a key. -/
def inPartition (partitionBy : List String) (key : List Value) (row : Row) : Result Bool :=
  (Hierarchy.valuesOf row partitionBy).map fun values => Value.sameKeys values key

variable {r : Relation} {spec : WindowSpec} {frame : Option FrameSpec} {values : List Value}

/-- A class of rows is evaluated alike under equal keys. -/
theorem resultsAt_congr {key key' : List Value} (h : Value.sameKeys key key' = true) :
    resultsAt r spec frame key = resultsAt r spec frame key' := by
  rw [resultsAt, resultsAt, Relation.arrangedAt_congr h]

theorem holdsAt_congr {key key' results : List Value} (h : Value.sameKeys key key' = true) :
    HoldsAt r spec key values results ↔ HoldsAt r spec key' values results := by
  rw [HoldsAt, HoldsAt, Relation.arrangedAt_congr h]

theorem HoldsAt.unique {key values' results : List Value} (h : HoldsAt r spec key values results)
    (h' : HoldsAt r spec key values' results) {i : ℕ} (hi : i < r.size)
    (hkey : Value.sameKeys (r.cells spec.partitionBy i) key = true) : values[i]? = values'[i]? :=
  List.map_inj_left.mp (h.trans h'.symm) i (Relation.mem_arrangedAt.mpr ⟨hi, hkey⟩)

/-- A window function answers exactly with the values that its partitions have one by one. -/
theorem evaluate_eq_ok_iff (hr : r.WellFormed) (hv : validate r.schema spec = .ok frame)
    (hnan : r.NaNFree spec.orderBy) : evaluate r spec = .ok values ↔
      r.Comparable spec.orderBy ∧ values.length = r.size ∧ ∀ i < r.size, ∃ results,
        resultsAt r spec frame (r.cells spec.partitionBy i) = .ok results ∧
          HoldsAt r spec (r.cells spec.partitionBy i) values results := by
  have hvalid := validate_eq_ok hv
  have hsorts := hr.sortsBy hvalid.orderColumns hnan
  obtain ⟨type, htype⟩ := exists_outputType hvalid
  have hyields := evaluate_yields hr hv htype
  have hforward : ∀ found, evaluate r spec = .ok found → r.Comparable spec.orderBy ∧
      found.length = r.size ∧ ∀ i < r.size, ∃ results,
        resultsAt r spec frame (r.cells spec.partitionBy i) = .ok results ∧
          HoldsAt r spec (r.cells spec.partitionBy i) found results := by
    intro found h
    obtain ⟨hanswers, hparts⟩ := hyields.of_ok h
    obtain ⟨frame', hframe, h⟩ := Result.bind_eq_ok.mp h
    obtain ⟨parts, hpositions, -⟩ := Result.bind_eq_ok.mp h
    obtain ⟨hc, rfl⟩ := Arrangement.eq_arranged_of_positions hvalid.partitionColumns
      hvalid.orderColumns hsorts hpositions
    refine ⟨hc, hanswers.length, fun i hi => ?_⟩
    obtain ⟨p, hp, hpos⟩ := Arrangement.exists_arranged hr hvalid.partitionColumns hi
    obtain ⟨results, hresults, hplaced⟩ := hparts _ hpositions p hp
    rw [hpos] at hresults hplaced
    exact ⟨results, hresults, hplaced⟩
  refine ⟨hforward values, ?_⟩
  rintro ⟨hc, hlength, hclasses⟩
  rcases hyields with hover | ⟨found, hfound, -⟩
  · -- a partition that overflowed would be one of the classes
    have hpositions := Arrangement.positions_eq_ok hvalid.partitionColumns hvalid.orderColumns
      hsorts hc
    rw [evaluate, hv, Result.ok_bind, hpositions, Result.ok_bind, Result.bind_eq_error] at hover
    obtain ⟨p, hp, hover⟩ := Result.exists_error_of_mapM
      (hover.resolve_right (by rintro ⟨_, _, h⟩; cases h))
    rcases Result.bind_eq_error.mp hover with hover | ⟨_, _, h⟩
    · obtain ⟨i, hi, hpos⟩ := Arrangement.exists_row_of_arranged hr hvalid.partitionColumns hp
      obtain ⟨results, hresults, -⟩ := hclasses i hi
      rw [hpos] at hover
      cases hresults.symm.trans hover
    · cases h
  · obtain ⟨-, hlength', hclasses'⟩ := hforward found hfound
    rw [hfound]
    refine congrArg Except.ok (List.ext_getElem? fun i => ?_)
    by_cases hi : i < r.size
    · obtain ⟨results, hresults, hholds⟩ := hclasses i hi
      obtain ⟨results', hresults', hholds'⟩ := hclasses' i hi
      cases hresults.symm.trans hresults'
      exact hholds'.unique hholds hi (hr.sameKeys_cells hi hvalid.partitionColumns)
    · rw [List.getElem?_eq_none (by omega), List.getElem?_eq_none (by omega)]

/-- Filtering by a key picks the rows of its class. -/
theorem filter_inPartition (hr : r.WellFormed) {partitionBy : List String}
    (hp : ∀ name ∈ partitionBy, name ∈ r.names) (key : List Value) :
    r.filter (inPartition partitionBy key) = .ok (r.pick (r.positionsOf partitionBy key)) := by
  have hkeep : Relation.keep (fun values => inPartition partitionBy key (r.row values)) r.rows =
      .ok (r.rows.filter fun values =>
        Value.sameKeys (partitionBy.map (r.schema.cell values)) key) := by
    refine Result.keep_eq_filter fun values hvalues => ?_
    rw [inPartition, hr.valuesOf_row hp hvalues]
    rfl
  rw [Relation.filter_rows] at hkeep
  rw [Relation.filter, hkeep, Result.ok_bind]
  rfl

/-- The values at places of a list that has them. -/
theorem map_getElem?_eq {places : List ℕ} (hin : ∀ i ∈ places, i < values.length) :
    places.map (values[·]?) = (places.map fun i => values[i]?.getD .null).map some := by
  rw [List.map_map]
  refine List.map_congr_left fun i hi => ?_
  simp [hin i hi]

/-- The rows of a key, taken alone, are arranged as among the others. -/
theorem arrangedAt_own (r : Relation) (partitionBy : List String) (orderBy : List OrderKey)
    {key key' : List Value} (h : Value.sameKeys key key' = true) :
    ((r.pick (r.positionsOf partitionBy key)).arrangedAt partitionBy orderBy key').map
        (Relation.placeAt (r.positionsOf partitionBy key)) = r.arrangedAt partitionBy orderBy key := by
  have hall : ((r.positionsOf partitionBy key).filter fun i =>
      Value.sameKeys (r.cells partitionBy i) key') = r.positionsOf partitionBy key := by
    refine List.filter_eq_self.mpr fun i hi => ?_
    exact Value.sameKeys_trans (Relation.mem_positionsOf.mp hi).2 h
  rw [Relation.arrangedAt_pick, hall, Relation.arrangedAt]

/-- Values read through places are values of the picked rows. -/
theorem map_placeAt_getElem? {places positions : List ℕ} (hin : ∀ i ∈ places, i < values.length)
    (hpositions : ∀ j ∈ positions, j < places.length) :
    positions.map ((places.map fun i => values[i]?.getD .null)[·]?) =
      (positions.map (Relation.placeAt places)).map (values[·]?) := by
  rw [List.map_map]
  refine List.map_congr_left fun j hj => ?_
  have hj := hpositions j hj
  have hlt := hin _ (List.getElem_mem hj)
  simp [Relation.placeAt, hj, hlt]

/-- The rows of a key, taken alone, keep their values. -/
theorem evaluate_own (hr : r.WellFormed) (hnan : r.NaNFree spec.orderBy)
    (h : evaluate r spec = .ok values) (key : List Value) :
    evaluate (r.pick (r.positionsOf spec.partitionBy key)) spec =
      .ok ((r.positionsOf spec.partitionBy key).map fun i => values[i]?.getD .null) := by
  obtain ⟨frame, hv, -⟩ := Result.bind_eq_ok.mp h
  obtain ⟨hc, hlength, hclasses⟩ := (evaluate_eq_ok_iff hr hv hnan).mp h
  have hin : ∀ i ∈ r.positionsOf spec.partitionBy key, i < r.size :=
    fun i hi => (Relation.mem_positionsOf.mp hi).1
  refine (evaluate_eq_ok_iff (hr.pick hin) hv (hnan.pick hin)).mpr
    ⟨hc.pick hin, by simp, fun j hj => ?_⟩
  rw [Relation.size_pick] at hj
  obtain ⟨hi, hkey⟩ := Relation.mem_positionsOf.mp (Relation.placeAt_mem hj)
  have hown : Value.sameKeys key ((r.pick (r.positionsOf spec.partitionBy key)).cells
      spec.partitionBy j) = true := by
    rw [Relation.cells_pick hj]
    exact Value.sameKeys_symm hkey
  have harranged := arrangedAt_own r spec.partitionBy spec.orderBy hown
  have hpositions : ∀ j' ∈ (r.pick (r.positionsOf spec.partitionBy key)).arrangedAt
      spec.partitionBy spec.orderBy ((r.pick (r.positionsOf spec.partitionBy key)).cells
        spec.partitionBy j), j' < (r.positionsOf spec.partitionBy key).length :=
    fun j' hj' => by simpa using (Relation.mem_arrangedAt.mp hj').1
  obtain ⟨results, hresults, hholds⟩ := hclasses _ hi
  rw [resultsAt_congr hkey] at hresults
  rw [holdsAt_congr hkey] at hholds
  refine ⟨results, ?_, ?_⟩
  · rw [← hresults, resultsAt, resultsAt, Relation.rowsAt_pick hin hpositions, harranged,
      Relation.schema_pick]
  · rw [HoldsAt, map_placeAt_getElem? (fun i hi => hlength ▸ hin i hi) hpositions, harranged]
    exact hholds

/-- The values at the rows of a partition are those of the window function over these rows alone, in
the same order. So wherever the rows of a key are the same, in the same order, their values are,
whatever the other rows are. Every row is in one partition, that of its key. -/
theorem partition_local (hr : r.WellFormed) (hnan : r.NaNFree spec.orderBy)
    (h : evaluate r spec = .ok values) :
    (∀ key, ∃ own results, r.filter (inPartition spec.partitionBy key) = .ok own ∧
      evaluate own spec = .ok results ∧
      (r.positionsOf spec.partitionBy key).map (values[·]?) = results.map some) ∧
    (∀ key (s : Relation) values', s.WellFormed → s.NaNFree spec.orderBy →
      evaluate s spec = .ok values' →
      s.filter (inPartition spec.partitionBy key) = r.filter (inPartition spec.partitionBy key) →
      (s.positionsOf spec.partitionBy key).map (values'[·]?) =
        (r.positionsOf spec.partitionBy key).map (values[·]?)) ∧
    values.length = r.size ∧
    ∃ parts, Arrangement.positions r spec.partitionBy spec.orderBy = .ok parts ∧
      (parts.flatMap Partition.positions).Perm (List.range r.size) ∧
      ∀ p ∈ parts, p.positions.Perm (r.positionsOf spec.partitionBy p.key) := by
  have halone : ∀ {s : Relation} {values' : List Value}, s.WellFormed → s.NaNFree spec.orderBy →
      evaluate s spec = .ok values' → ∀ key, ∃ own results,
        s.filter (inPartition spec.partitionBy key) = .ok own ∧ evaluate own spec = .ok results ∧
        (s.positionsOf spec.partitionBy key).map (values'[·]?) = results.map some := by
    intro s values' hs hnan' h' key
    obtain ⟨frame, hv, -⟩ := Result.bind_eq_ok.mp h'
    obtain ⟨-, hlength, -⟩ := (evaluate_eq_ok_iff hs hv hnan').mp h'
    refine ⟨_, _, filter_inPartition hs (validate_eq_ok hv).partitionColumns key,
      evaluate_own hs hnan' h' key, map_getElem?_eq fun i hi => ?_⟩
    rw [hlength]
    exact (Relation.mem_positionsOf.mp hi).1
  obtain ⟨frame, hv, -⟩ := Result.bind_eq_ok.mp h
  have hvalid := validate_eq_ok hv
  obtain ⟨hc, hlength, -⟩ := (evaluate_eq_ok_iff hr hv hnan).mp h
  refine ⟨halone hr hnan h, ?_, hlength, _, Arrangement.positions_eq_ok hvalid.partitionColumns
    hvalid.orderColumns (hr.sortsBy hvalid.orderColumns hnan) hc,
    Arrangement.arranged_perm r spec.partitionBy spec.orderBy, fun p hp => ?_⟩
  · intro key s values' hs hnan' h' hsame
    obtain ⟨own, results, hown, hresults, hvalues⟩ := halone hr hnan h key
    obtain ⟨own', results', hown', hresults', hvalues'⟩ := halone hs hnan' h' key
    obtain rfl : own' = own := Except.ok.inj (hown'.symm.trans (hsame.trans hown))
    obtain rfl : results' = results := Except.ok.inj (hresults'.symm.trans hresults)
    rw [hvalues, hvalues']
  · rw [Arrangement.positions_of_mem_arranged hr hvalid.partitionColumns hp]
    exact Relation.arrangedAt_perm

/-- The red team's totals are those of its three results, between which the blue team's stand. -/
theorem partition_local_teamTotals :
    evaluate Arrangement.teamResults teamTotals =
      .ok [.int 4, .int 1, .int 4, .int 4, .int 1] ∧
    ∃ own results, Arrangement.teamResults.filter (inPartition ["team"] [.text "red"]) = .ok own ∧
      own.rows = [[.text "red", .int 2], [.text "red", .null], [.text "red", .int 2]] ∧
      evaluate own teamTotals = .ok results ∧ results = [.int 4, .int 4, .int 4] := by
  have hvalues : evaluate Arrangement.teamResults teamTotals =
      .ok [.int 4, .int 1, .int 4, .int 4, .int 1] := by cbv
  obtain ⟨halone, -⟩ := partition_local (by decide) (by decide) hvalues
  obtain ⟨own, results, hown, hresults, hplaced⟩ := halone [.text "red"]
  have hplaces : Arrangement.teamResults.positionsOf ["team"] [.text "red"] = [0, 2, 3] := by cbv
  refine ⟨hvalues, own, results, hown, ?_, hresults, ?_⟩
  · cases hown
    rfl
  · have hsome : [Value.int 4, .int 4, .int 4].map some = results.map some := by
      simpa [teamTotals, hplaces] using hplaced
    exact (List.map_injective_iff.mpr (Option.some_injective _) hsome).symm

end OrderedRelations.Window
