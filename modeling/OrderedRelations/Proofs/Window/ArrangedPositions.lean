import Mathlib.Data.List.Perm.Basic
import OrderedRelations.Proofs.Window.SortPasses

/-!
# Positions of an arrangement

An arrangement groups the rows by their partition key and puts each group in the strict order of
the keys. It answers exactly where every order cell has a comparable form.
-/

namespace OrderedRelations

namespace Relation

/-- Every cell of the order columns has a comparable form: no moment leaves the calendar when it
is read in UTC. -/
def Comparable (r : Relation) (orderBy : List OrderKey) : Prop :=
  ∀ k ∈ orderBy, ∀ i < r.size, (r.cell k.column i).comparable?.isSome = true

instance (r : Relation) (orderBy : List OrderKey) : Decidable (r.Comparable orderBy) :=
  inferInstanceAs (Decidable (∀ k ∈ orderBy, ∀ i < r.size,
    (r.cell k.column i).comparable?.isSome = true))

/-- No cell of the order columns is what is not a number. -/
def NaNFree (r : Relation) (orderBy : List OrderKey) : Prop :=
  ∀ k ∈ orderBy, ∀ i < r.size, (r.cell k.column i).isNaN = false

instance (r : Relation) (orderBy : List OrderKey) : Decidable (r.NaNFree orderBy) :=
  inferInstanceAs (Decidable (∀ k ∈ orderBy, ∀ i < r.size, (r.cell k.column i).isNaN = false))

/-- The rows by partition key, as they arrive. -/
def groups (r : Relation) (partitionBy : List String) : List Partition :=
  Arrangement.partitions ((List.range r.size).map (r.cells partitionBy))

/-- The groups, each sorted once and stably by all keys. -/
def arranged (r : Relation) (partitionBy : List String) (orderBy : List OrderKey) :
    List Partition :=
  (r.groups partitionBy).map fun p =>
    ⟨p.key, p.positions.mergeSort fun i j => !r.keysBefore orderBy j i⟩

theorem WellFormed.sortsBy {r : Relation} (hr : r.WellFormed) {orderBy : List OrderKey}
    (ho : ∀ k ∈ orderBy, k.column ∈ r.names) (hnan : r.NaNFree orderBy) : r.SortsBy orderBy := by
  intro k hk
  obtain ⟨type, htype⟩ := exists_typeOf (ho k hk)
  refine ⟨type, fun i => ?_⟩
  by_cases hi : i < r.size
  · unfold sortCell
    cases hc : (r.cell k.column i).comparable? with
    | none => exact Value.sortable_null type
    | some v =>
      have hconforms := hr.conforms (valuesAt_mem hi) htype
      exact ⟨Value.conforms_of_comparable? hc hconforms, Value.isNaive_of_comparable? hc,
        (Value.isNaN_of_comparable? hc).trans (hnan k hk i hi)⟩
  · have hnull := cell_of_size_le k.column (Nat.le_of_not_lt hi)
    simpa [sortCell, hnull] using Value.sortable_null type

end Relation

namespace Arrangement

theorem mem_insert {key : List Value} {next : ℕ} {ps : List Partition} {p : Partition}
    (h : p ∈ insert key next ps) : p.positions = [next] ∨ p ∈ ps ∨
      ∃ q ∈ ps, p.positions = q.positions ++ [next] := by
  induction ps with
  | nil => simp_all [insert]
  | cons q rest ih =>
    simp only [insert] at h
    split at h
    · rcases List.mem_cons.mp h with rfl | h
      · exact .inr (.inr ⟨q, by simp, rfl⟩)
      · exact .inr (.inl (by simp [h]))
    · rcases List.mem_cons.mp h with rfl | h
      · exact .inr (.inl (by simp))
      · rcases ih h with h | h | ⟨q', hq', h⟩
        · exact .inl h
        · exact .inr (.inl (by simp [h]))
        · exact .inr (.inr ⟨q', by simp [hq'], h⟩)

/-- Positions of a partition that have arrived in order, all below a bound. -/
def Arrived (bound : ℕ) (p : Partition) : Prop :=
  p.positions.Pairwise (· < ·) ∧ ∀ i ∈ p.positions, i < bound

private theorem arrived_insert (key : List Value) {next : ℕ} {ps : List Partition}
    (h : ∀ p ∈ ps, Arrived next p) : ∀ p ∈ insert key next ps, Arrived (next + 1) p := by
  intro p hp
  rcases mem_insert hp with hp | hp | ⟨q, hq, hp⟩
  · simp [Arrived, hp]
  · obtain ⟨hsorted, hbound⟩ := h p hp
    exact ⟨hsorted, fun i hi => Nat.lt_succ_of_lt (hbound i hi)⟩
  · obtain ⟨hsorted, hbound⟩ := h q hq
    rw [Arrived, hp, List.pairwise_append]
    refine ⟨⟨hsorted, List.pairwise_singleton _ _, by simpa using hbound⟩, ?_⟩
    intro i hi
    rcases List.mem_append.mp hi with hi | hi
    · exact Nat.lt_succ_of_lt (hbound i hi)
    · simp [List.mem_singleton.mp hi]

private theorem arrived_partitionFrom (keys : List (List Value)) {next : ℕ} {ps : List Partition}
    (h : ∀ p ∈ ps, Arrived next p) :
    ∀ p ∈ partitionFrom ps next keys, Arrived (next + keys.length) p := by
  induction keys generalizing ps next with
  | nil => exact h
  | cons key rest ih =>
    have hrest := ih (arrived_insert key h)
    rw [List.length_cons, show next + (rest.length + 1) = next + 1 + rest.length by omega]
    exact hrest

theorem arrived_groups (r : Relation) (partitionBy : List String) :
    ∀ p ∈ r.groups partitionBy, Arrived r.size p := by
  have hnone : ∀ p ∈ ([] : List Partition), Arrived 0 p := by simp
  have h := arrived_partitionFrom ((List.range r.size).map (r.cells partitionBy)) hnone
  simpa [Relation.groups, partitions] using h

private theorem insert_perm (key : List Value) (next : ℕ) (ps : List Partition) :
    ((insert key next ps).flatMap Partition.positions).Perm
      (ps.flatMap Partition.positions ++ [next]) := by
  induction ps with
  | nil => exact .refl _
  | cons p rest ih =>
    rw [insert]
    split
    · simp only [List.flatMap_cons, List.append_assoc]
      exact List.perm_append_comm.append_left p.positions
    · simp only [List.flatMap_cons, List.append_assoc]
      exact ih.append_left p.positions

private theorem partitionFrom_perm (keys : List (List Value)) (next : ℕ) (ps : List Partition) :
    ((partitionFrom ps next keys).flatMap Partition.positions).Perm
      (ps.flatMap Partition.positions ++ List.range' next keys.length) := by
  induction keys generalizing next ps with
  | nil => simp [partitionFrom]
  | cons key rest ih =>
    rw [partitionFrom, List.length_cons, List.range'_succ]
    refine (ih (next + 1) (insert key next ps)).trans ?_
    simpa using (insert_perm key next ps).append_right (List.range' (next + 1) rest.length)

theorem groups_perm (r : Relation) (partitionBy : List String) :
    ((r.groups partitionBy).flatMap Partition.positions).Perm (List.range r.size) := by
  have h := partitionFrom_perm ((List.range r.size).map (r.cells partitionBy)) 0 []
  simpa [Relation.groups, partitions, List.range_eq_range'] using h

/-- Every row stands in one partition, and there once. -/
theorem arranged_perm (r : Relation) (partitionBy : List String) (orderBy : List OrderKey) :
    ((r.arranged partitionBy orderBy).flatMap Partition.positions).Perm (List.range r.size) := by
  refine List.Perm.trans ?_ (groups_perm r partitionBy)
  rw [Relation.arranged, List.flatMap_map]
  exact List.Perm.flatMap_left _ fun p _ => List.mergeSort_perm _ _

theorem checkColumns_eq_ok {schema : Schema} {partitionBy : List String} {orderBy : List OrderKey}
    (hp : ∀ name ∈ partitionBy, name ∈ schema.names) (ho : ∀ k ∈ orderBy, k.column ∈ schema.names) :
    checkColumns schema partitionBy orderBy = .ok () := by
  have hparts : (partitionBy.find? fun name => !schema.contains name) = none := by
    simpa [Schema.contains_iff] using hp
  have horders : (orderBy.find? fun k => !schema.contains k.column) = none := by
    simpa [Schema.contains_iff] using ho
  simp [checkColumns, hparts, horders]

theorem comparableColumn_eq_ok {r : Relation} {name : String} (h : name ∈ r.names)
    (hc : ∀ i < r.size, (r.cell name i).comparable?.isSome = true) :
    comparableColumn r name = .ok (r.sortColumn name) := by
  rw [comparableColumn, Relation.column_eq_ok h, Result.ok_bind, Relation.sortColumn,
    Result.mapM_eq_ok, List.forall₂_map_left_iff, List.forall₂_map_right_iff, List.forall₂_same]
  intro i hi
  obtain ⟨v, hv⟩ := Option.isSome_iff_exists.mp (hc i (List.mem_range.mp hi))
  simp [Relation.sortCell, hv]

theorem comparableColumn_eq_error {r : Relation} {name : String} (h : name ∈ r.names)
    (hc : ∃ i < r.size, (r.cell name i).comparable? = none) :
    comparableColumn r name = .error .overflow := by
  obtain ⟨i, hi, hnone⟩ := hc
  rw [comparableColumn, Relation.column_eq_ok h, Result.ok_bind]
  apply Result.mapM_eq_error
  · intro v _ e he
    cases hv : v.comparable? <;> simp [hv] at he
    exact he.symm
  · exact ⟨r.cell name i, List.mem_map.mpr ⟨i, List.mem_range.mpr hi, rfl⟩, by simp [hnone]⟩

/-- The groups after one pass for each key. -/
def passed (r : Relation) (partitionBy : List String) (orderBy : List OrderKey) : List Partition :=
  (r.groups partitionBy).map fun p =>
    ⟨p.key, sortPasses (orderBy.map fun k => (k, r.sortColumn k.column)) p.positions⟩

/-- Where every order cell has a comparable form, arranging passes over every group. -/
theorem positions_eq_passed {r : Relation} {partitionBy : List String} {orderBy : List OrderKey}
    (hp : ∀ name ∈ partitionBy, name ∈ r.names) (ho : ∀ k ∈ orderBy, k.column ∈ r.names)
    (hc : r.Comparable orderBy) :
    positions r partitionBy orderBy = .ok (passed r partitionBy orderBy) := by
  obtain ⟨places, hplaces⟩ := Schema.exists_places hp
  have hkeyed : (orderBy.mapM fun k => do
      let values ← comparableColumn r k.column
      pure (k, values)) = .ok (orderBy.map fun k => (k, r.sortColumn k.column)) := by
    apply Result.mapM_eq_map
    intro k hk
    simp [comparableColumn_eq_ok (ho k hk) (hc k hk)]
  have hkeys : (r.rows.map fun row => places.map (valueAt row)) =
      (List.range r.size).map (r.cells partitionBy) := by
    rw [Relation.rows_eq_map_valuesAt, List.map_map]
    exact List.map_congr_left fun i _ => Schema.keyOf_places hplaces (r.valuesAt i)
  rw [positions, checkColumns_eq_ok hp ho, Result.ok_bind, hplaces, Result.ok_bind, hkeyed,
    Result.ok_bind, hkeys]
  rfl

/-- Arranging sorts every group once by all keys. -/
theorem positions_eq_ok {r : Relation} {partitionBy : List String} {orderBy : List OrderKey}
    (hp : ∀ name ∈ partitionBy, name ∈ r.names) (ho : ∀ k ∈ orderBy, k.column ∈ r.names)
    (hsorts : r.SortsBy orderBy) (hc : r.Comparable orderBy) :
    positions r partitionBy orderBy = .ok (r.arranged partitionBy orderBy) := by
  rw [positions_eq_passed hp ho hc, passed, Relation.arranged]
  refine congrArg Except.ok (List.map_congr_left ?_)
  intro p hpart
  rw [sortPasses_eq_mergeSort hsorts (arrived_groups r partitionBy p hpart).1]

theorem positions_eq_error {r : Relation} {partitionBy : List String} {orderBy : List OrderKey}
    (hp : ∀ name ∈ partitionBy, name ∈ r.names) (ho : ∀ k ∈ orderBy, k.column ∈ r.names)
    (hc : ¬ r.Comparable orderBy) : positions r partitionBy orderBy = .error .overflow := by
  obtain ⟨places, hplaces⟩ := Schema.exists_places hp
  have hkeyed : (orderBy.mapM fun k => do
      let values ← comparableColumn r k.column
      pure (k, values)) = .error .overflow := by
    apply Result.mapM_eq_error
    · intro k hk e he
      by_cases hall : ∀ i < r.size, (r.cell k.column i).comparable?.isSome = true
      · simp [comparableColumn_eq_ok (ho k hk) hall] at he
      · have hnone : ∃ i < r.size, (r.cell k.column i).comparable? = none := by simpa using hall
        rw [comparableColumn_eq_error (ho k hk) hnone] at he
        cases he
        rfl
    · obtain ⟨k, hk, hnone⟩ : ∃ k ∈ orderBy, ∃ i < r.size,
          (r.cell k.column i).comparable? = none := by
        simpa [Relation.Comparable] using hc
      exact ⟨k, hk, by rw [comparableColumn_eq_error (ho k hk) hnone, Result.error_bind]⟩
  rw [positions, checkColumns_eq_ok hp ho, Result.ok_bind, hplaces, Result.ok_bind, hkeyed,
    Result.error_bind]

/-- An arrangement that answers had a comparable form of every order cell. -/
theorem eq_arranged_of_positions {r : Relation} {partitionBy : List String}
    {orderBy : List OrderKey} (hp : ∀ name ∈ partitionBy, name ∈ r.names)
    (ho : ∀ k ∈ orderBy, k.column ∈ r.names) (hsorts : r.SortsBy orderBy) {parts : List Partition}
    (h : positions r partitionBy orderBy = .ok parts) :
    r.Comparable orderBy ∧ parts = r.arranged partitionBy orderBy := by
  by_cases hc : r.Comparable orderBy
  · rw [positions_eq_ok hp ho hsorts hc] at h
    cases h
    exact ⟨hc, rfl⟩
  · rw [positions_eq_error hp ho hc] at h
    cases h

/-- Every arranged partition stands in the strict order of the keys. -/
theorem arranged_pairwise {r : Relation} {partitionBy : List String} {orderBy : List OrderKey}
    (hsorts : r.SortsBy orderBy) {p : Partition} (h : p ∈ r.arranged partitionBy orderBy) :
    p.positions.Pairwise (r.Precedes orderBy) := by
  obtain ⟨group, hgroup, rfl⟩ := List.mem_map.mp h
  exact hsorts.pairwise_mergeSort (arrived_groups r partitionBy group hgroup).1

theorem lt_size_of_arranged {r : Relation} {partitionBy : List String} {orderBy : List OrderKey}
    {p : Partition} (h : p ∈ r.arranged partitionBy orderBy) : ∀ i ∈ p.positions, i < r.size := by
  obtain ⟨group, hgroup, rfl⟩ := List.mem_map.mp h
  intro i hi
  exact (arrived_groups r partitionBy group hgroup).2 i (List.mem_mergeSort.mp hi)

/-- The passes, one for each key and each stable in either direction, are one stable sort: the
positions of every partition stand in the strict order of all keys. Only a moment that leaves
the calendar in UTC keeps an arrangement from answering. -/
theorem positions_lexicographic {r : Relation} {partitionBy : List String}
    {orderBy : List OrderKey} (hr : r.WellFormed) (hp : ∀ name ∈ partitionBy, name ∈ r.names)
    (ho : ∀ k ∈ orderBy, k.column ∈ r.names) (hnan : r.NaNFree orderBy) :
    (r.Comparable orderBy →
      positions r partitionBy orderBy = .ok (r.arranged partitionBy orderBy)) ∧
    (¬ r.Comparable orderBy → positions r partitionBy orderBy = .error .overflow) ∧
    ∀ parts, positions r partitionBy orderBy = .ok parts →
      ∀ p ∈ parts, p.positions.Pairwise (r.Precedes orderBy) := by
  have hsorts := hr.sortsBy ho hnan
  refine ⟨positions_eq_ok hp ho hsorts, positions_eq_error hp ho, ?_⟩
  intro parts hparts p hpart
  by_cases hc : r.Comparable orderBy
  · rw [positions_eq_ok hp ho hsorts hc] at hparts
    cases hparts
    exact arranged_pairwise hsorts hpart
  · rw [positions_eq_error hp ho hc] at hparts
    cases hparts

/-- Results of two teams, some of them open. -/
def teamResults : Relation :=
  ⟨⟨[⟨"team", .text, by decide⟩, ⟨"score", .integer, by decide⟩], by decide⟩,
    [[.text "red", .int 2], [.text "blue", .null], [.text "red", .null], [.text "red", .int 2],
      [.text "blue", .int 1]]⟩

/-- The best result first, open ones last, and the column once more the other way round. -/
def bestFirst : List OrderKey := [⟨"score", .desc, .last⟩, ⟨"score", .asc, .first⟩]

theorem positions_lexicographic_teamResults :
    (teamResults.Comparable bestFirst ∧
      positions teamResults ["team"] bestFirst = .ok (teamResults.arranged ["team"] bestFirst)) ∧
    ∀ parts, positions teamResults ["team"] bestFirst = .ok parts →
      ∀ p ∈ parts, p.positions.Pairwise (teamResults.Precedes bestFirst) := by
  have hteams : ∀ name ∈ ["team"], name ∈ teamResults.names := by decide
  have hscores : ∀ k ∈ bestFirst, k.column ∈ teamResults.names := by decide
  obtain ⟨hok, -, hsorted⟩ := positions_lexicographic (by decide) hteams hscores (by decide)
  have hc : teamResults.Comparable bestFirst := by decide
  exact ⟨⟨hc, hok hc⟩, hsorted⟩

end Arrangement
end OrderedRelations
