import OrderedRelations.Proofs.Streak.ScratchColumns
import OrderedRelations.Proofs.Window.RankCounts

/-!
# Runs of rows that pass a test

A row is numbered along its partition and, once more, along the rows of its partition that pass or
fail the test as it does. Both orders break ties by arrival, so the difference counts the rows in
front that do not pass, and it stays the same exactly where none lies between.
-/

namespace OrderedRelations.Streak

variable {r flagged : Relation} {partitionBy : List String} {orderBy : List OrderKey}
  {parts : List Partition} {qualifies : ℕ → Bool} {ids : List Value}

/-- Splitting a partition by a flag keeps of it the rows that are flagged alike. -/
theorem partitionOf_flagged (hr : r.WellFormed) (hp : ∀ name ∈ partitionBy, name ∈ r.names)
    {c : Column}
    (h : Relation.Appended r c (((List.range r.size).map qualifies).map .bool) flagged)
    {i : ℕ} (hi : i < r.size) : flagged.partitionOf (partitionBy ++ [c.name]) i =
      (r.partitionOf partitionBy i).filter fun j => qualifies j == qualifies i := by
  have hcells : ∀ j < r.size, flagged.cells (partitionBy ++ [c.name]) j =
      r.cells partitionBy j ++ [.bool (qualifies j)] := by
    intro j hj
    have hcell : flagged.cell c.name j = .bool (qualifies j) := by simpa [hj] using h.cell hr hj
    rw [← h.widens.cells_eq hr hp, ← hcell]
    simp [Relation.cells]
  have hflag : ∀ a b : Bool, (Value.bool a).sameKey (.bool b) = (a == b) := by decide
  rw [Relation.partitionOf, Relation.partitionOf, Relation.positionsOf, Relation.positionsOf,
    List.filter_filter, h.widens.size_eq]
  refine List.filter_congr fun j hj => ?_
  rw [hcells j (List.mem_range.mp hj), hcells i hi, Value.sameKeys_append (by simp [Relation.cells]),
    hflag, Bool.and_comm]

/-- How many rows of its partition precede a row and do not pass. -/
def failuresBefore (r : Relation) (partitionBy : List String) (orderBy : List OrderKey)
    (qualifies : ℕ → Bool) (i : ℕ) : ℕ :=
  (r.partitionOf partitionBy i).countP fun j => decide (r.Precedes orderBy j i) && !qualifies j

section Numbered

variable (hr : r.WellFormed) (hp : ∀ name ∈ partitionBy, name ∈ r.names)
  (ho : ∀ k ∈ orderBy, k.column ∈ r.names) (hne : orderBy ≠ []) (hnan : r.NaNFree orderBy)
  (hc : r.Comparable orderBy)
include hr hp ho hne hnan hc

/-- With a scratch column for the flags, the rows of a partition are numbered once all together and
once apart from those flagged otherwise. -/
theorem exists_flagged (qualifies : ℕ → Bool) : ∃ flagged,
    r.withColumn (scratchName r.schema "qualifies") .boolean
        (((List.range r.size).map qualifies).map .bool) = .ok flagged ∧
    Window.evaluate flagged (.numbering partitionBy orderBy) =
      .ok ((List.range r.size).map fun i => .int (1 + ((r.partitionOf partitionBy i).countP
        fun j => decide (r.Precedes orderBy j i) : ℕ))) ∧
    Window.evaluate flagged (.numbering (partitionBy ++ [scratchName r.schema "qualifies"]) orderBy) =
      .ok ((List.range r.size).map fun i => .int (1 + (((r.partitionOf partitionBy i).filter
        fun j => qualifies j == qualifies i).countP fun j => decide (r.Precedes orderBy j i) : ℕ))) := by
  have htyped : ∀ v ∈ ((List.range r.size).map qualifies).map Value.bool,
      v.conforms .boolean = true := by
    intro v hv
    obtain ⟨b, -, rfl⟩ := List.mem_map.mp hv
    rfl
  obtain ⟨flagged, hflagged, happended⟩ := exists_scratch r "qualifies" (by simp) htyped
  have hwide := happended.widens
  refine ⟨flagged, hflagged, ?_, ?_⟩
  · have hreads : ∀ name ∈ (WindowSpec.numbering partitionBy orderBy).reads, name ∈ r.names := by
      simpa [WindowSpec.reads, WindowSpec.numbering, WindowFunction.column?, or_imp, forall_and]
        using And.intro hp ho
    rw [Window.evaluate_wider hr hwide hreads]
    exact Window.evaluate_rowNumber_eq hr hp ho hne hnan hc none none
  · have hp' : ∀ name ∈ partitionBy ++ [scratchName r.schema "qualifies"], name ∈ flagged.names := by
      intro name hname
      rw [happended.names]
      rcases List.mem_append.mp hname with hname | hname
      · exact List.mem_append_left _ (hp name hname)
      · exact List.mem_append_right _ hname
    have hnumbers := Window.evaluate_rowNumber_eq (happended.wellFormed hr htyped) hp'
      (fun k hk => hwide.mem_names (ho k hk)) hne ((hwide.naNFree_iff hr ho).mpr hnan)
      ((hwide.comparable_iff hr ho).mpr hc) none none
    simp only [hwide.precedes_iff hr ho, hwide.size_eq] at hnumbers
    refine hnumbers.trans (congrArg Except.ok (List.map_congr_left fun i hi => ?_))
    rw [← partitionOf_flagged hr hp happended (List.mem_range.mp hi)]
    rfl

/-- A row that passes has its number less that among the rows that pass, which counts the others that
precede it. Rows that do not pass have none. -/
theorem qualifyingIds_eq {test : Row → Result Bool}
    (htest : ∀ i < r.size, test (r.row (r.valuesAt i)) = .ok (qualifies i)) :
    qualifyingIds r partitionBy orderBy test = .ok ((List.range r.size).map fun i =>
      if qualifies i then .int (failuresBefore r partitionBy orderBy qualifies i) else .null) := by
  have hflags : (r.rows.mapM fun values => test (r.row values)) =
      .ok ((List.range r.size).map qualifies) := by
    rw [r.rows_eq_map_valuesAt, List.mapM_map]
    exact Result.mapM_eq_map fun i hi => htest i (List.mem_range.mp hi)
  obtain ⟨flagged, hflagged, hall, hwithin⟩ := exists_flagged hr hp ho hne hnan hc qualifies
  refine Result.bind_eq_ok.mpr ⟨_, hflags, Result.bind_eq_ok.mpr ⟨flagged, hflagged,
    Result.bind_eq_ok.mpr ⟨_, hall, Result.bind_eq_ok.mpr ⟨_, hwithin, ?_⟩⟩⟩⟩
  rw [List.zip_map', List.zip_map', List.map_map]
  refine congrArg Except.ok (List.map_congr_left fun i _ => ?_)
  cases hi : qualifies i with
  | false => simp [hi]
  | true =>
    -- of the rows that precede this one, those that pass are left out of the difference
    have hsplit := (r.partitionOf partitionBy i).countP_eq_countP_filter_add
      (fun j => decide (r.Precedes orderBy j i)) qualifies
    have hpassing : ((r.partitionOf partitionBy i).filter fun j => qualifies j == true) =
        (r.partitionOf partitionBy i).filter qualifies := List.filter_congr fun j _ => beq_true _
    simp only [Function.comp_apply, hi, if_true, difference, failuresBefore, ← List.countP_filter,
      hpassing, hsplit]
    congr 1
    omega

end Numbered

/-- Ids of the rows that pass, along arranged partitions: each is the number of rows in front that do
not pass, so it is shared exactly where no such row lies between, and never decreases. Rows that do not
pass have none. -/
structure QualifyingNumbered (r : Relation) (qualifies : ℕ → Bool) (parts : List Partition)
    (ids : List Value) : Prop where
  length : ids.length = r.size
  absent : ∀ i < r.size, ids[i]? = some .null ↔ qualifies i = false
  count : ∀ p ∈ parts, ∀ k, (h : k < p.positions.length) → qualifies p.positions[k] = true →
    ids[p.positions[k]]? = some (.int ((p.positions.take k).countP fun j => !qualifies j : ℕ))
  together : ∀ p ∈ parts, ∀ k m, (hkm : k < m) → (hm : m < p.positions.length) →
    qualifies p.positions[k] = true → qualifies p.positions[m] = true →
    (ids[p.positions[k]]? = ids[p.positions[m]]? ↔
      ∀ j, k < j → (hj : j < m) → qualifies p.positions[j] = true)
  ascending : ∀ p ∈ parts, ∀ k m, (hkm : k < m) → (hm : m < p.positions.length) →
    qualifies p.positions[k] = true → qualifies p.positions[m] = true →
    ∃ a b : ℤ, ids[p.positions[k]]? = some (.int a) ∧ ids[p.positions[m]]? = some (.int b) ∧ a ≤ b

/-- Between two places, an element that fails is counted in front of the second and not in front of
the first. -/
theorem countP_take_eq_iff {α : Type} (fails : α → Bool) {l : List α} {k m : ℕ} (hkm : k ≤ m) :
    (l.take k).countP fails = (l.take m).countP fails ↔
      ∀ j a, k ≤ j → j < m → l[j]? = some a → fails a = false := by
  have hsplit : (l.take m).countP fails =
      (l.take k).countP fails + ((l.drop k).take (m - k)).countP fails := by
    conv_lhs => rw [← Nat.add_sub_of_le hkm, List.take_add, List.countP_append]
  have hnone : ((l.drop k).take (m - k)).countP fails = 0 ↔
      ∀ j a, k ≤ j → j < m → l[j]? = some a → fails a = false := by
    simp only [List.countP_eq_zero, List.mem_iff_getElem?, Bool.not_eq_true]
    constructor
    · intro h j a hkj hjm hj
      refine h a ⟨j - k, ?_⟩
      rw [List.getElem?_take_of_lt (by omega), List.getElem?_drop, Nat.add_sub_of_le hkj, hj]
    · rintro h a ⟨n, hn⟩
      rw [List.getElem?_take] at hn
      split at hn
      · rw [List.getElem?_drop] at hn
        exact h (k + n) a (by omega) (by omega) hn
      · cases hn
  rw [hsplit, ← hnone]
  omega

section Arranged

variable (hr : r.WellFormed) (hnan : r.NaNFree orderBy)
  (hparts : Arrangement.positions r partitionBy orderBy = .ok parts)
include hr hnan hparts

/-- Along an arranged partition, the rows that precede a row are those in front of it. -/
theorem failuresBefore_eq {p : Partition} (hp : p ∈ parts) {k : ℕ} (hk : k < p.positions.length) :
    failuresBefore r partitionBy orderBy qualifies p.positions[k] =
      (p.positions.take k).countP fun j => !qualifies j := by
  obtain ⟨-, ho, -, -⟩ := Arrangement.passed_of_positions hparts
  obtain ⟨-, hkey⟩ := (Arrangement.mem_positions_iff hr hparts hp).mp (List.getElem_mem hk)
  have hperm : (r.partitionOf partitionBy p.positions[k]).Perm p.positions := by
    rw [Relation.partitionOf, Relation.positionsOf_congr hkey]
    exact (Arrangement.perm_positionsOf hr hparts hp).symm
  rw [failuresBefore, hperm.countP_eq, ← (hr.sortsBy ho hnan).filter_precedes
    (Arrangement.pairwise_of_positions hr hnan hparts hp) (List.getElem?_eq_getElem hk),
    List.countP_filter]
  simp only [Bool.and_comm]

/-- Rows that count the failures before them are numbered along their partitions. -/
theorem qualifyingNumbered (qualifies : ℕ → Bool) : QualifyingNumbered r qualifies parts
    ((List.range r.size).map fun i =>
      if qualifies i then .int (failuresBefore r partitionBy orderBy qualifies i) else .null) := by
  have hcount : ∀ p ∈ parts, ∀ k, (h : k < p.positions.length) → qualifies p.positions[k] = true →
      ((List.range r.size).map fun i => if qualifies i
        then .int (failuresBefore r partitionBy orderBy qualifies i) else .null)[p.positions[k]]? =
        some (Value.int ((p.positions.take k).countP fun j => !qualifies j : ℕ)) := by
    intro p hp k hk hpass
    have hi := Arrangement.lt_size_of_positions hparts hp _ (List.getElem_mem hk)
    simp [hi, hpass, failuresBefore_eq hr hnan hparts hp hk]
  refine ⟨by simp, fun i hi => ?_, hcount, fun p hp k m hkm hm hk hm' => ?_,
    fun p hp k m hkm hm hk hm' => ?_⟩
  · cases hpass : qualifies i <;> simp [hi, hpass]
  · rw [hcount p hp k (hkm.trans hm) hk, hcount p hp m hm hm', Option.some.injEq, Value.int.injEq,
      Nat.cast_inj, countP_take_eq_iff _ hkm.le]
    constructor
    · intro h j hkj hjm
      simpa using h j _ hkj.le hjm (List.getElem?_eq_getElem (hjm.trans hm))
    · intro h j a hkj hjm ha
      obtain ⟨hj, rfl⟩ := List.getElem?_eq_some_iff.mp ha
      rcases Nat.eq_or_lt_of_le hkj with rfl | hkj
      · simpa using hk
      · simpa using h j hkj hjm
  · refine ⟨_, _, hcount p hp k (hkm.trans hm) hk, hcount p hp m hm hm', Int.ofNat_le.mpr ?_⟩
    exact (List.take_sublist_take_left hkm.le).countP_le

end Arranged

end OrderedRelations.Streak
