import OrderedRelations.Proofs.Window.ArrangedPositions

/-!
# Partitions are classes of rows

A partition holds exactly the rows whose partition columns have its key, in order of arrival. So an
arrangement is known from the classes of the keys, in whatever order they are met.
-/

namespace OrderedRelations

namespace Relation

/-- The rows whose partition columns have a key, as they arrive. -/
def positionsOf (r : Relation) (partitionBy : List String) (key : List Value) : List ℕ :=
  (List.range r.size).filter fun i => Value.sameKeys (r.cells partitionBy i) key

/-- The rows of a key in the order of the order keys. -/
def arrangedAt (r : Relation) (partitionBy : List String) (orderBy : List OrderKey)
    (key : List Value) : List ℕ :=
  (r.positionsOf partitionBy key).mergeSort fun i j => !r.keysBefore orderBy j i

variable {r : Relation} {partitionBy : List String} {orderBy : List OrderKey} {key : List Value}

theorem mem_positionsOf {i : ℕ} : i ∈ r.positionsOf partitionBy key ↔
    i < r.size ∧ Value.sameKeys (r.cells partitionBy i) key = true := by
  simp [positionsOf]

theorem nodup_positionsOf : (r.positionsOf partitionBy key).Nodup := List.nodup_range.filter _

theorem sorted_positionsOf : (r.positionsOf partitionBy key).Pairwise (· < ·) :=
  List.pairwise_lt_range.filter _

theorem arrangedAt_perm :
    (r.arrangedAt partitionBy orderBy key).Perm (r.positionsOf partitionBy key) :=
  List.mergeSort_perm _ _

theorem mem_arrangedAt {i : ℕ} : i ∈ r.arrangedAt partitionBy orderBy key ↔
    i < r.size ∧ Value.sameKeys (r.cells partitionBy i) key = true :=
  arrangedAt_perm.mem_iff.trans mem_positionsOf

theorem positionsOf_congr {key' : List Value} (h : Value.sameKeys key key' = true) :
    r.positionsOf partitionBy key = r.positionsOf partitionBy key' := by
  refine List.filter_congr fun i _ => ?_
  rw [Bool.eq_iff_iff]
  exact ⟨fun hi => Value.sameKeys_trans hi h,
    fun hi => Value.sameKeys_trans hi (Value.sameKeys_symm h)⟩

theorem arrangedAt_congr {key' : List Value} (h : Value.sameKeys key key' = true) :
    r.arrangedAt partitionBy orderBy key = r.arrangedAt partitionBy orderBy key' := by
  rw [arrangedAt, arrangedAt, positionsOf_congr h]

end Relation

namespace Arrangement

/-- Partitions of different keys, each with some positions, all of its own key. -/
structure Keyed (keyAt : ℕ → List Value) (ps : List Partition) : Prop where
  inhabited : ∀ p ∈ ps, p.positions ≠ []
  same : ∀ p ∈ ps, ∀ i ∈ p.positions, Value.sameKeys (keyAt i) p.key = true
  apart : ps.Pairwise fun p q => Value.sameKeys p.key q.key = false

theorem key_of_mem_insert {key : List Value} {next : ℕ} {ps : List Partition} {q : Partition}
    (h : q ∈ insert key next ps) : q.key = key ∨ ∃ p ∈ ps, q.key = p.key := by
  induction ps with
  | nil =>
    rw [insert, List.mem_singleton] at h
    exact .inl (by rw [h])
  | cons p rest ih =>
    rw [insert] at h
    split at h
    · rcases List.mem_cons.mp h with rfl | h
      · exact .inr ⟨p, by simp, rfl⟩
      · exact .inr ⟨q, by simp [h], rfl⟩
    · rcases List.mem_cons.mp h with rfl | h
      · exact .inr ⟨q, by simp, rfl⟩
      · rcases ih h with hkey | ⟨p', hp', hkey⟩
        · exact .inl hkey
        · exact .inr ⟨p', by simp [hp'], hkey⟩

theorem Keyed.insert {keyAt : ℕ → List Value} {next : ℕ} {ps : List Partition}
    (h : Keyed keyAt ps) (hself : Value.sameKeys (keyAt next) (keyAt next) = true) :
    Keyed keyAt (insert (keyAt next) next ps) := by
  induction ps with
  | nil =>
    refine ⟨by simp [Arrangement.insert], ?_, List.pairwise_singleton _ _⟩
    intro p hp i hi
    rw [List.mem_singleton.mp hp] at hi ⊢
    rw [List.mem_singleton.mp hi]
    exact hself
  | cons p rest ih =>
    obtain ⟨hinhabited, hsame, hapart⟩ := h
    obtain ⟨hhead, htail⟩ := List.pairwise_cons.mp hapart
    obtain ⟨hfirst, hrest⟩ := List.forall_mem_cons.mp hinhabited
    rw [Arrangement.insert]
    split
    · rename_i hkey
      refine ⟨List.forall_mem_cons.mpr ⟨by simp, hrest⟩, ?_,
        List.pairwise_cons.mpr ⟨hhead, htail⟩⟩
      intro q hq i hi
      rcases List.mem_cons.mp hq with rfl | hq
      · rcases List.mem_append.mp hi with hi | hi
        · exact hsame p (by simp) i hi
        · rw [List.mem_singleton.mp hi]
          exact Value.sameKeys_symm hkey
      · exact hsame q (by simp [hq]) i hi
    · rename_i hkey
      obtain ⟨hinhabited', hsame', hapart'⟩ :=
        ih ⟨hrest, fun q hq => hsame q (by simp [hq]), htail⟩
      refine ⟨List.forall_mem_cons.mpr ⟨hfirst, hinhabited'⟩,
        List.forall_mem_cons.mpr ⟨hsame p (by simp), hsame'⟩,
        List.pairwise_cons.mpr ⟨?_, hapart'⟩⟩
      · intro q hq
        rcases key_of_mem_insert hq with hq | ⟨p', hp', hq⟩
        · rw [hq]
          exact Bool.eq_false_iff.mpr hkey
        · rw [hq]
          exact hhead p' hp'

theorem Keyed.partitionFrom {keyAt : ℕ → List Value} {n next : ℕ} {ps : List Partition}
    (h : Keyed keyAt ps)
    (hself : ∀ i, next ≤ i → i < next + n → Value.sameKeys (keyAt i) (keyAt i) = true) :
    Keyed keyAt (partitionFrom ps next ((List.range' next n).map keyAt)) := by
  induction n generalizing next ps with
  | zero => exact h
  | succ n ih =>
    rw [List.range'_succ, List.map_cons, Arrangement.partitionFrom]
    refine ih (h.insert (hself next (Nat.le_refl _) (by omega))) fun i hi hlt => ?_
    exact hself i (by omega) (by omega)

variable {r : Relation} {partitionBy : List String} {orderBy : List OrderKey}

theorem keyed_groups (hr : r.WellFormed) (hp : ∀ name ∈ partitionBy, name ∈ r.names) :
    Keyed (r.cells partitionBy) (r.groups partitionBy) := by
  rw [Relation.groups, partitions, List.range_eq_range']
  refine Keyed.partitionFrom ⟨by simp, by simp, List.Pairwise.nil⟩ fun i _ hi => ?_
  exact hr.sameKeys_cells (by omega) hp

/-- A partition has all rows of its key, in order of arrival. -/
theorem positions_of_mem_groups (hr : r.WellFormed) (hp : ∀ name ∈ partitionBy, name ∈ r.names)
    {p : Partition} (h : p ∈ r.groups partitionBy) :
    p.positions = r.positionsOf partitionBy p.key := by
  obtain ⟨-, hsame, hapart⟩ := keyed_groups hr hp
  obtain ⟨hsorted, hbound⟩ := arrived_groups r partitionBy p h
  have hsymm : Std.Symm fun p q : Partition => Value.sameKeys p.key q.key = false := by
    refine ⟨fun p q hpq => Bool.eq_false_iff.mpr fun hqp => ?_⟩
    rw [Value.sameKeys_symm hqp] at hpq
    cases hpq
  have hperm : p.positions.Perm (r.positionsOf partitionBy p.key) := by
    rw [List.perm_ext_iff_of_nodup (hsorted.imp Nat.ne_of_lt) Relation.nodup_positionsOf]
    intro i
    rw [Relation.mem_positionsOf]
    refine ⟨fun hi => ⟨hbound i hi, hsame p h i hi⟩, fun ⟨hi, hkey⟩ => ?_⟩
    -- the partition that has the row has its key, and there is one partition of each key
    obtain ⟨q, hq, hiq⟩ := List.mem_flatMap.mp
      ((groups_perm r partitionBy).mem_iff.mpr (List.mem_range.mpr hi))
    by_cases heq : p = q
    · rwa [heq]
    · have hne := hapart.forall h hq heq
      rw [Value.sameKeys_trans (Value.sameKeys_symm hkey) (hsame q hq i hiq)] at hne
      cases hne
  exact hperm.eq_of_pairwise (fun _ _ _ _ hab hba => absurd hab (Nat.lt_asymm hba)) hsorted
    Relation.sorted_positionsOf

/-- An arranged partition has the rows of its key, in the order of the order keys. -/
theorem positions_of_mem_arranged (hr : r.WellFormed) (hp : ∀ name ∈ partitionBy, name ∈ r.names)
    {p : Partition} (h : p ∈ r.arranged partitionBy orderBy) :
    p.positions = r.arrangedAt partitionBy orderBy p.key := by
  obtain ⟨group, hgroup, rfl⟩ := List.mem_map.mp h
  dsimp only
  rw [Relation.arrangedAt, positions_of_mem_groups hr hp hgroup]

/-- Every partition is that of the key of some row. -/
theorem exists_row_of_arranged (hr : r.WellFormed) (hp : ∀ name ∈ partitionBy, name ∈ r.names)
    {p : Partition} (h : p ∈ r.arranged partitionBy orderBy) : ∃ i < r.size,
      p.positions = r.arrangedAt partitionBy orderBy (r.cells partitionBy i) := by
  obtain ⟨group, hgroup, rfl⟩ := List.mem_map.mp h
  obtain ⟨hinhabited, hsame, -⟩ := keyed_groups hr hp
  obtain ⟨i, hi⟩ := List.exists_mem_of_ne_nil _ (hinhabited group hgroup)
  refine ⟨i, (arrived_groups r partitionBy group hgroup).2 i hi, ?_⟩
  rw [positions_of_mem_arranged hr hp h,
    Relation.arrangedAt_congr (Value.sameKeys_symm (hsame group hgroup i hi))]

/-- Every row has a partition, that of its own key. -/
theorem exists_arranged (hr : r.WellFormed) (hp : ∀ name ∈ partitionBy, name ∈ r.names)
    {i : ℕ} (hi : i < r.size) : ∃ p ∈ r.arranged partitionBy orderBy,
      p.positions = r.arrangedAt partitionBy orderBy (r.cells partitionBy i) := by
  obtain ⟨p, hpart, hip⟩ := List.mem_flatMap.mp
    ((arranged_perm r partitionBy orderBy).mem_iff.mpr (List.mem_range.mpr hi))
  have hpositions := positions_of_mem_arranged hr hp hpart
  refine ⟨p, hpart, hpositions.trans (Relation.arrangedAt_congr ?_)⟩
  rw [hpositions] at hip
  exact Value.sameKeys_symm (Relation.mem_arrangedAt.mp hip).2

end Arrangement
end OrderedRelations
