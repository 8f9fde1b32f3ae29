import OrderedRelations.Proofs.Relation.Operations
import OrderedRelations.Proofs.Streak.StoredClasses

/-!
# Summaries, row by row

The table of a summary has one row for each key among the rows with an id, in order of first
appearance. Read back, a row has the key, the number of rows that share it, and the least and the
greatest cell that these rows have in the measured column.
-/

namespace OrderedRelations.Streak

variable {g out : Relation} {keys : List String} {group column name : String} {type : ColumnType}
  {least greatest : ℕ → ℕ}

/-- The row of a summary for the key of a row. -/
def summaryRow (g : Relation) (keys : List String) (group column : String) (least greatest : ℕ → ℕ)
    (f : ℕ) : List Value :=
  g.cells keys f ++ [.int (sharers g keys group f).length, g.cell column (least f),
    g.cell column (greatest f)]

/-- The columns that a summary has behind its keys. -/
def ownColumns (type : ColumnType) : List Column :=
  [⟨lengthColumn, .integer, by decide⟩, ⟨startColumn, type, by decide⟩,
    ⟨endColumn, type, by decide⟩]

/-- A summary of classes with the rows where their measured cells are the least and the greatest. -/
structure Summary (g : Relation) (keys : List String) (group column : String) (type : ColumnType)
    (least greatest : ℕ → ℕ) (out : Relation) : Prop where
  columns : ∃ front, keys.mapM g.schema.column = .ok front ∧
    out.schema.columns = front ++ ownColumns type
  rows : out.rows = (openers g keys group).map (summaryRow g keys group column least greatest)

namespace Summary

theorem names (hout : Summary g keys group column type least greatest out) :
    out.names = keys ++ [lengthColumn, startColumn, endColumn] := by
  obtain ⟨front, hfront, hcolumns⟩ := hout.columns
  rw [Relation.names, Schema.names, hcolumns, List.map_append, Schema.names_of_columns hfront]
  rfl

theorem wellFormed (hout : Summary g keys group column type least greatest out)
    (h : Summarizable g keys group column type) : out.WellFormed := by
  obtain ⟨front, hfront, hcolumns⟩ := hout.columns
  intro row hrow
  rw [hout.rows] at hrow
  obtain ⟨f, -, rfl⟩ := List.mem_map.mp hrow
  refine Schema.fits_iff.mpr ?_
  rw [hcolumns, summaryRow]
  refine List.rel_append ?_ (.cons rfl (.cons ?_ (.cons ?_ .nil)))
  · rw [Relation.cells, List.forall₂_map_left_iff]
    refine (Result.mapM_eq_ok.mp hfront).imp fun name c hc => ?_
    exact h.wellFormed.conforms_cell (Schema.typeOf_of_column hc) f
  · exact h.wellFormed.conforms_cell h.typeOf (least f)
  · exact h.wellFormed.conforms_cell h.typeOf (greatest f)

theorem storable (hout : Summary g keys group column type least greatest out)
    (h : Summarizable g keys group column type) : out.Storable := by
  intro row hrow v hv
  rw [hout.rows] at hrow
  obtain ⟨f, -, rfl⟩ := List.mem_map.mp hrow
  rcases List.mem_append.mp hv with hv | hv
  · obtain ⟨name, -, rfl⟩ := List.mem_map.mp hv
    exact h.storable.cell name f
  · simp only [List.mem_cons, List.not_mem_nil, or_false] at hv
    rcases hv with rfl | rfl | rfl
    · have hle : (sharers g keys group f).length ≤ g.size := calc
        _ ≤ (presentRows g group).length := List.length_filter_le _ _
        _ ≤ (List.range g.size).length := List.length_filter_le _ _
        _ = g.size := List.length_range
      exact DataType.inSigned_natCast (Nat.lt_of_le_of_lt hle h.size)
    · exact h.storable.cell column (least f)
    · exact h.storable.cell column (greatest f)

theorem size_eq (hout : Summary g keys group column type least greatest out) :
    out.size = (openers g keys group).length := by
  rw [Relation.size, hout.rows, List.length_map]

/-- The row of a summary for a key, name by name. -/
theorem cells_eq (hout : Summary g keys group column type least greatest out)
    (h : Summarizable g keys group column type) {j f : ℕ}
    (hf : (openers g keys group)[j]? = some f) :
    out.cells keys j = g.cells keys f ∧
      out.cell lengthColumn j = .int (sharers g keys group f).length ∧
      out.cell startColumn j = g.cell column (least f) ∧
      out.cell endColumn j = g.cell column (greatest f) := by
  have hj : j < out.size := hout.size_eq ▸ (List.getElem?_eq_some_iff.mp hf).1
  have hrow : out.cells (keys ++ [lengthColumn, startColumn, endColumn]) j =
      summaryRow g keys group column least greatest f := by
    rw [← hout.names, (hout.wellFormed h).cells_names hj, Relation.valuesAt, hout.rows]
    simp [hf]
  rw [Relation.cells, List.map_append] at hrow
  obtain ⟨hkeys, hown⟩ := List.append_inj hrow (by simp [Relation.cells])
  exact ⟨hkeys, by simpa using hown⟩

/-- What the rows of a summary have is what their keys have. -/
theorem map_range {β : Type} (hout : Summary g keys group column type least greatest out)
    {inRow ofKey : ℕ → β} (h : ∀ j f, (openers g keys group)[j]? = some f → inRow j = ofKey f) :
    (List.range out.size).map inRow = (openers g keys group).map ofKey := by
  rw [hout.size_eq]
  refine List.ext_getElem (by simp) fun j hj hj' => ?_
  rw [List.length_map] at hj'
  simp [h j _ (List.getElem?_eq_getElem hj')]

/-- The keys of a summary are the different ones of the rows with an id, as they first appear. -/
theorem keys_eq (hout : Summary g keys group column type least greatest out)
    (h : Summarizable g keys group column type) : (List.range out.size).map (out.cells keys) =
      ((presentRows g group).map (g.cells keys)).eraseDupsBy Value.sameKeys := by
  rw [eraseDupsBy_map]
  exact hout.map_range fun j f hf => (hout.cells_eq h hf).1

/-- The cells of a column of a summary. -/
theorem columnAt (hout : Summary g keys group column type least greatest out) (k : ℕ) :
    out.columnAt k = (openers g keys group).map fun f =>
      (summaryRow g keys group column least greatest f)[k]?.getD .null := by
  rw [Relation.columnAt, hout.rows, List.map_map]
  rfl

end Summary

end OrderedRelations.Streak
