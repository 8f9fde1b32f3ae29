import OrderedRelations.Proofs.Window.PartitionClasses
import OrderedRelations.Proofs.Window.RangeArrangement

/-!
# Picked rows

A relation of some rows of another one, in some order: a selection when the places ascend, a
rearrangement when they are a permutation. Its partitions are those of the relation, read through
the places.
-/

namespace OrderedRelations

namespace Relation

/-- The rows at places, one for each. -/
def pick (r : Relation) (places : List ℕ) : Relation := ⟨r.schema, places.map r.valuesAt⟩

/-- Where the row at a position comes from. -/
def placeAt (places : List ℕ) (j : ℕ) : ℕ := places[j]?.getD 0

theorem map_placeAt (places : List ℕ) :
    (List.range places.length).map (placeAt places) = places := by
  apply List.ext_getElem
  · simp
  · intro i _ hi
    simp [placeAt, hi]

variable {r : Relation} {places : List ℕ} {partitionBy : List String} {orderBy : List OrderKey}
  {j k : ℕ}

@[simp] theorem schema_pick : (r.pick places).schema = r.schema := rfl

theorem pick_range (r : Relation) : r.pick (List.range r.size) = r := by
  rw [pick, ← r.rows_eq_map_valuesAt]

@[simp] theorem names_pick : (r.pick places).names = r.names := rfl

@[simp] theorem size_pick : (r.pick places).size = places.length := by simp [pick, size]

theorem placeAt_mem (hj : j < places.length) : placeAt places j ∈ places := by
  simp [placeAt, hj]

theorem exists_placeAt {i : ℕ} (hi : i ∈ places) : ∃ j < places.length, placeAt places j = i := by
  obtain ⟨j, hj, hget⟩ := List.getElem_of_mem hi
  exact ⟨j, hj, by simp [placeAt, hj, hget]⟩

/-- The places of a rearrangement are rows. -/
theorem lt_size_of_perm (h : places.Perm (List.range r.size)) : ∀ i ∈ places, i < r.size :=
  fun _ hi => List.mem_range.mp (h.mem_iff.mp hi)

theorem valuesAt_pick (hj : j < places.length) :
    (r.pick places).valuesAt j = r.valuesAt (placeAt places j) := by
  have hrow : (r.pick places).rows[j]? = some (r.valuesAt (placeAt places j)) := by
    simp [pick, placeAt, hj]
  rw [valuesAt, hrow, Option.getD_some]

theorem cell_pick (hj : j < places.length) (name : String) :
    (r.pick places).cell name j = r.cell name (placeAt places j) := by
  rw [cell, valuesAt_pick hj]
  rfl

theorem cells_pick (hj : j < places.length) (names : List String) :
    (r.pick places).cells names j = r.cells names (placeAt places j) :=
  List.map_congr_left fun name _ => cell_pick hj name

theorem sortCell_pick (hj : j < places.length) (name : String) :
    (r.pick places).sortCell name j = r.sortCell name (placeAt places j) := by
  rw [sortCell, cell_pick hj, sortCell]

theorem keysBefore_pick (hj : j < places.length) (hk : k < places.length) :
    (r.pick places).keysBefore orderBy j k =
      r.keysBefore orderBy (placeAt places j) (placeAt places k) := by
  induction orderBy with
  | nil => rfl
  | cons key rest ih =>
    rw [keysBefore, keysBefore, sortCell_pick hj, sortCell_pick hk, ih]

section Inside

variable (hin : ∀ i ∈ places, i < r.size)
include hin

theorem WellFormed.pick (hr : r.WellFormed) : (r.pick places).WellFormed := by
  intro row hrow
  obtain ⟨i, hi, rfl⟩ := List.mem_map.mp hrow
  exact hr _ (valuesAt_mem (hin i hi))

theorem NaNFree.pick (h : r.NaNFree orderBy) : (r.pick places).NaNFree orderBy := by
  intro k hk j hj
  rw [size_pick] at hj
  rw [cell_pick hj]
  exact h k hk _ (hin _ (placeAt_mem hj))

theorem Comparable.pick (h : r.Comparable orderBy) : (r.pick places).Comparable orderBy := by
  intro k hk j hj
  rw [size_pick] at hj
  rw [cell_pick hj]
  exact h k hk _ (hin _ (placeAt_mem hj))

theorem rowsAt_pick {positions : List ℕ} (hpositions : ∀ j ∈ positions, j < places.length) :
    Arrangement.rowsAt (r.pick places) positions =
      Arrangement.rowsAt r (positions.map (placeAt places)) := by
  have hout : ∀ i ∈ positions.map (placeAt places), i < r.size :=
    List.forall_mem_map.mpr fun j hj => hin _ (placeAt_mem (hpositions j hj))
  rw [FrameExtent.rowsAt_eq_map (r := r.pick places) (by simpa using hpositions),
    FrameExtent.rowsAt_eq_map hout, List.map_map]
  exact List.map_congr_left fun j hj => valuesAt_pick (hpositions j hj)

end Inside

/-- A class of picked rows, read through the places, is the class among the places. -/
theorem positionsOf_pick (key : List Value) :
    ((r.pick places).positionsOf partitionBy key).map (placeAt places) =
      places.filter fun i => Value.sameKeys (r.cells partitionBy i) key := by
  conv_rhs => rw [← map_placeAt places, List.filter_map]
  rw [positionsOf, size_pick]
  refine congrArg _ (List.filter_congr fun j hj => ?_)
  rw [cells_pick (List.mem_range.mp hj)]
  rfl

/-- Picked rows are arranged as their places are. -/
theorem arrangedAt_pick (key : List Value) :
    ((r.pick places).arrangedAt partitionBy orderBy key).map (placeAt places) =
      (places.filter fun i => Value.sameKeys (r.cells partitionBy i) key).mergeSort
        fun i j => !r.keysBefore orderBy j i := by
  have hlt : ∀ j ∈ (r.pick places).positionsOf partitionBy key, j < places.length := by
    intro j hj
    simpa using (mem_positionsOf.mp hj).1
  rw [arrangedAt, ← positionsOf_pick]
  refine List.map_mergeSort fun j hj k hk => ?_
  rw [keysBefore_pick (hlt k hk) (hlt j hj)]

end Relation
end OrderedRelations
