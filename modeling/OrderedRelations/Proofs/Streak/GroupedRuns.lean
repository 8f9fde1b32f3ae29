import OrderedRelations.Proofs.Streak.SummaryTable

/-!
# Groups of rows with one id

Behind its columns a grouped relation has the ids of its rows. The rows that share their partition
and their id are those of one run along the line of the partition.
-/

namespace OrderedRelations.Streak

/-- A relation with a column of ids that number the runs along its partitions. -/
structure Grouped (r : Relation) (partitionBy : List String) (column : String)
    (parts : List Partition) (breaks : ℤ → ℤ → Bool) (c : Column) (ids : List Value)
    (g : Relation) : Prop where
  wellFormed : r.WellFormed
  known : ∀ name ∈ partitionBy, name ∈ r.names
  measured : column ∈ r.names
  arranged : ∃ orderBy,
    Arrangement.positions (measuredRows r column) partitionBy orderBy = .ok parts
  numbered : Numbered r column (linesOf r column parts) breaks ids
  appended : Relation.Appended r c ids g

namespace Grouped

variable {r g : Relation} {partitionBy : List String} {column : String} {parts : List Partition}
  {breaks : ℤ → ℤ → Bool} {c : Column} {ids : List Value} {i : ℕ}

theorem size_eq (h : Grouped r partitionBy column parts breaks c ids g) : g.size = r.size :=
  h.appended.widens.size_eq

theorem id_eq (h : Grouped r partitionBy column parts breaks c ids g) (hi : i < r.size) :
    ids[i]? = some (g.cell c.name i) :=
  (h.appended.cell h.wellFormed hi).symm

/-- A present row stands in the line of its partition. -/
theorem exists_line (h : Grouped r partitionBy column parts breaks c ids g)
    (hi : i ∈ presentRows r column) : ∃ line ∈ linesOf r column parts, i ∈ line ∧
      line.Perm ((presentRows r column).filter fun j =>
        Value.sameKeys (r.cells partitionBy j) (r.cells partitionBy i)) := by
  obtain ⟨orderBy, hparts⟩ := h.arranged
  obtain ⟨p, hp, hperm⟩ := Streak.exists_line h.wellFormed hparts hi
  refine ⟨_, List.mem_map_of_mem hp, hperm.mem_iff.mpr (List.mem_filter.mpr ⟨hi, ?_⟩), hperm⟩
  exact h.wellFormed.sameKeys_cells (mem_presentRows.mp hi).1 h.known

/-- Present rows have whole numbers up to the number of rows as ids. -/
theorem exists_number (h : Grouped r partitionBy column parts breaks c ids g)
    (hi : i ∈ presentRows r column) :
    ∃ n : ℕ, g.cell c.name i = .int n ∧ n ≤ r.size := by
  obtain ⟨line, hline, hmem, hperm⟩ := h.exists_line hi
  have hid : ids[i]? ∈ line.map (ids[·]?) := List.mem_map_of_mem hmem
  rw [h.numbered.runs line hline, h.id_eq (mem_presentRows.mp hi).1, List.map_map] at hid
  obtain ⟨n, hn, heq⟩ := List.mem_map.mp hid
  refine ⟨n, (Option.some.inj heq).symm, ?_⟩
  calc
    n ≤ (line.map (pointAt r column)).length := le_length_of_mem_runIds hn
    _ = line.length := List.length_map _
    _ ≤ (presentRows r column).length := hperm.length_eq.trans_le (List.length_filter_le _ _)
    _ ≤ (List.range r.size).length := List.length_filter_le _ _
    _ = r.size := List.length_range

theorem absent (h : Grouped r partitionBy column parts breaks c ids g) (hi : i < r.size)
    (hnull : (r.cell column i).isNull = true) : g.cell c.name i = .null := by
  have hid := h.numbered.absent i hi hnull
  rw [h.id_eq hi] at hid
  exact Option.some.inj hid

/-- Ids are nulls, or whole numbers up to the number of rows. -/
theorem id_cases (h : Grouped r partitionBy column parts breaks c ids g) {v : Value}
    (hv : v ∈ ids) : v = .null ∨ ∃ n : ℕ, v = .int n ∧ n ≤ r.size := by
  obtain ⟨i, hi⟩ := List.mem_iff_getElem?.mp hv
  have hlt : i < r.size := h.numbered.length ▸ (List.getElem?_eq_some_iff.mp hi).1
  obtain rfl : g.cell c.name i = v := Option.some.inj ((h.id_eq hlt).symm.trans hi)
  cases hnull : (r.cell column i).isNull with
  | true => exact .inl (h.absent hlt hnull)
  | false => exact .inr (h.exists_number (mem_presentRows.mpr ⟨hlt, hnull⟩))

theorem storable (h : Grouped r partitionBy column parts breaks c ids g) (hs : r.Storable)
    (hsize : r.size < 2 ^ 63) : g.Storable := by
  intro row hrow v hv
  rw [h.appended.rows] at hrow
  obtain ⟨i, hi, rfl⟩ := List.getElem_of_mem hrow
  simp only [List.length_zipWith, Nat.lt_min] at hi
  rw [List.getElem_zipWith] at hv
  rcases List.mem_append.mp hv with hv | hv
  · exact hs _ (List.getElem_mem hi.1) v hv
  · obtain rfl := List.mem_singleton.mp hv
    rcases h.id_cases (List.getElem_mem hi.2) with hid | ⟨n, hid, hn⟩
    · rw [hid]
      trivial
    · rw [hid]
      exact DataType.inSigned_natCast (Nat.lt_of_le_of_lt hn hsize)

end Grouped
end OrderedRelations.Streak
