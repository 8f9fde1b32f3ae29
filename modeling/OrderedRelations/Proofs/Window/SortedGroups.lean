import OrderedRelations.Proofs.Window.PartitionClasses
import OrderedRelations.Proofs.Window.Validation

/-!
# Groups in any order

Whatever the order cells are, also where one is not a number and sorting settles nothing, an
arrangement that answers holds each group of rows in some order of its rows.
-/

namespace OrderedRelations.Arrangement

variable {r : Relation} {partitionBy : List String} {orderBy : List OrderKey}
  {parts : List Partition} {p : Partition}

/-- An arrangement that answers names columns, had a comparable form of every order cell, and has
passed over every group. -/
theorem passed_of_positions (h : positions r partitionBy orderBy = .ok parts) :
    (∀ name ∈ partitionBy, name ∈ r.names) ∧ (∀ k ∈ orderBy, k.column ∈ r.names) ∧
      r.Comparable orderBy ∧ parts = passed r partitionBy orderBy := by
  obtain ⟨_, hcolumns, -⟩ := Result.bind_eq_ok.mp h
  obtain ⟨hp, ho⟩ := columns_of_checkColumns hcolumns
  by_cases hc : r.Comparable orderBy
  · rw [positions_eq_passed hp ho hc] at h
    exact ⟨hp, ho, hc, (Except.ok.inj h).symm⟩
  · rw [positions_eq_error hp ho hc] at h
    cases h

/-- Every row stands in one partition, and there once. -/
theorem positions_perm (h : positions r partitionBy orderBy = .ok parts) :
    (parts.flatMap Partition.positions).Perm (List.range r.size) := by
  obtain ⟨-, -, -, rfl⟩ := passed_of_positions h
  refine List.Perm.trans ?_ (groups_perm r partitionBy)
  rw [passed, List.flatMap_map]
  exact List.Perm.flatMap_left _ fun p _ => sortPasses_perm _ p.positions

theorem lt_size_of_positions (h : positions r partitionBy orderBy = .ok parts) (hp : p ∈ parts) :
    ∀ i ∈ p.positions, i < r.size := fun _ hi =>
  List.mem_range.mp ((positions_perm h).mem_iff.mp (List.mem_flatMap.mpr ⟨p, hp, hi⟩))

/-- A partition has the rows of its key. -/
theorem perm_positionsOf (hr : r.WellFormed) (h : positions r partitionBy orderBy = .ok parts)
    (hp : p ∈ parts) : p.positions.Perm (r.positionsOf partitionBy p.key) := by
  obtain ⟨hcolumns, -, -, rfl⟩ := passed_of_positions h
  obtain ⟨group, hgroup, rfl⟩ := List.mem_map.mp hp
  exact positions_of_mem_groups hr hcolumns hgroup ▸ sortPasses_perm _ group.positions

theorem mem_positions_iff (hr : r.WellFormed) (h : positions r partitionBy orderBy = .ok parts)
    (hp : p ∈ parts) {i : ℕ} : i ∈ p.positions ↔
      i < r.size ∧ Value.sameKeys (r.cells partitionBy i) p.key = true :=
  (perm_positionsOf hr h hp).mem_iff.trans Relation.mem_positionsOf

/-- Where no order cell is what is not a number, a partition stands in the strict order of the keys. -/
theorem pairwise_of_positions (hr : r.WellFormed) (hnan : r.NaNFree orderBy)
    (h : positions r partitionBy orderBy = .ok parts) (hp : p ∈ parts) :
    p.positions.Pairwise (r.Precedes orderBy) := by
  obtain ⟨hcolumns, ho, -, -⟩ := passed_of_positions h
  have hsorts := hr.sortsBy ho hnan
  obtain ⟨-, rfl⟩ := eq_arranged_of_positions hcolumns ho hsorts h
  exact arranged_pairwise hsorts hp

end OrderedRelations.Arrangement
