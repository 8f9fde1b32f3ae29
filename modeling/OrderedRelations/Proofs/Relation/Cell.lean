import OrderedRelations.Hierarchy.Members
import OrderedRelations.Proofs.Result
import OrderedRelations.Proofs.Value.Equality
import Mathlib.Data.List.Nodup

/-!
# Cells of a relation

The value under a name in a row, and in the row at a position. In a well-formed relation the
readers of the library give these cells wherever the schema has the name, and a cell conforms to
the type of its column.
-/

namespace OrderedRelations

namespace Schema

/-- A schema comes only from columns with different names. -/
theorem ofColumns_eq_ok {columns : List Column} {s : Schema} :
    ofColumns columns = .ok s ↔ s.columns = columns := by
  obtain ⟨own, hown⟩ := s
  unfold ofColumns
  constructor
  · intro h
    split at h
    · cases h
      rfl
    · cases h
  · rintro rfl
    rw [dif_pos hown]

theorem contains_iff {s : Schema} {name : String} : s.contains name = true ↔ name ∈ s.names := by
  simp [contains]

theorem contains_eq_false {s : Schema} {name : String} (h : name ∉ s.names) :
    s.contains name = false := by
  rwa [← Bool.not_eq_true, contains_iff]

theorem indexOf?_eq_some {s : Schema} {name : String} {i : ℕ} (h : s.indexOf? name = some i) :
    ∃ c, s.columns[i]? = some c ∧ c.name = name := by
  obtain ⟨hi, hc, -⟩ := List.findIdx?_eq_some_iff_getElem.mp h
  exact ⟨s.columns[i], List.getElem?_eq_getElem hi, by simpa using hc⟩

theorem exists_indexOf {s : Schema} {name : String} (h : name ∈ s.names) :
    ∃ i, s.indexOf? name = some i := by
  obtain ⟨c, hc, rfl⟩ := List.mem_map.mp h
  cases hi : s.indexOf? c.name with
  | some i => exact ⟨i, rfl⟩
  | none =>
    have hnone := List.findIdx?_eq_none_iff.mp hi c hc
    simp at hnone

theorem lt_width_of_indexOf? {s : Schema} {name : String} {i : ℕ} (h : s.indexOf? name = some i) :
    i < s.width := by
  obtain ⟨c, hc, -⟩ := indexOf?_eq_some h
  exact (List.getElem?_eq_some_iff.mp hc).1

theorem indexOf_eq_ok {s : Schema} {name : String} {i : ℕ} :
    s.indexOf name = .ok i ↔ s.indexOf? name = some i := Result.orElse_eq_ok

/-- Finding a column by name finds the one at its place. -/
theorem typeOf_eq_ok {s : Schema} {name : String} {type : ColumnType} :
    s.typeOf name = .ok type ↔ ∃ i c, s.indexOf? name = some i ∧ s.columns[i]? = some c ∧
      c.type = type := by
  have hfind : s.find? name = (s.indexOf? name).bind (s.columns[·]?) :=
    List.find?_eq_bind_findIdx?_getElem?
  rw [typeOf, column, hfind]
  cases hi : s.indexOf? name with
  | none => simp
  | some i =>
    obtain ⟨c, hc, -⟩ := indexOf?_eq_some hi
    simp [hc]

theorem mem_names_of_typeOf {s : Schema} {name : String} {type : ColumnType}
    (h : s.typeOf name = .ok type) : name ∈ s.names := by
  obtain ⟨i, c, hi, hc, -⟩ := typeOf_eq_ok.mp h
  obtain ⟨c', hc', rfl⟩ := indexOf?_eq_some hi
  exact List.mem_map.mpr ⟨c', List.mem_of_getElem? hc', rfl⟩

/-- The value of a row under a name. -/
def cell (s : Schema) (values : List Value) (name : String) : Value :=
  ((s.indexOf? name).bind (values[·]?)).getD .null

/-- The places of columns read the cells of those columns. -/
theorem keyOf_places {s : Schema} {names : List String} {places : List ℕ}
    (h : names.mapM s.indexOf = .ok places) (values : List Value) :
    Hierarchy.keyOf places values = names.map (s.cell values) := by
  have hall := Result.mapM_eq_ok.mp h
  clear h
  induction hall with
  | nil => rfl
  | cons hi _ ih =>
    have hcell : ∀ {name i}, s.indexOf name = .ok i → s.cell values name = values[i]?.getD .null :=
      fun hi => by simp [cell, indexOf_eq_ok.mp hi]
    rw [List.map_cons, ← ih, hcell hi]
    rfl

theorem exists_places {s : Schema} {names : List String} (h : ∀ name ∈ names, name ∈ s.names) :
    ∃ places, names.mapM s.indexOf = .ok places := by
  refine ⟨_, Result.mapM_eq_map (g := fun name => (s.indexOf? name).getD 0) ?_⟩
  intro name hname
  obtain ⟨i, hi⟩ := exists_indexOf (h name hname)
  simpa [hi] using indexOf_eq_ok.mpr hi

end Schema

namespace Row

theorem get_eq_cell {row : Row} {name : String} (hlen : row.values.length = row.schema.width)
    (h : name ∈ row.schema.names) : row.get name = .ok (row.schema.cell row.values name) := by
  obtain ⟨i, hi⟩ := Schema.exists_indexOf h
  have hlt : i < row.values.length := hlen ▸ Schema.lt_width_of_indexOf? hi
  simp [get, Schema.cell, Schema.indexOf, hi, hlt]

end Row

namespace Relation

/-- The row at a position. -/
def valuesAt (r : Relation) (i : ℕ) : List Value := r.rows[i]?.getD []

/-- The value of a column in the row at a position. -/
def cell (r : Relation) (name : String) (i : ℕ) : Value := r.schema.cell (r.valuesAt i) name

/-- The values of columns in the row at a position. -/
def cells (r : Relation) (names : List String) (i : ℕ) : List Value :=
  names.map fun name => r.cell name i

theorem rows_eq_map_valuesAt (r : Relation) : r.rows = (List.range r.size).map r.valuesAt := by
  apply List.ext_getElem
  · simp [size]
  · intro i h _
    simp [valuesAt, h]

/-- A column holds its cells in row order. -/
theorem column_eq_ok {r : Relation} {name : String} (h : name ∈ r.names) :
    r.column name = .ok ((List.range r.size).map (r.cell name)) := by
  obtain ⟨i, hi⟩ := Schema.exists_indexOf h
  have hcells : r.columnAt i = (List.range r.size).map (r.cell name) := by
    rw [columnAt, rows_eq_map_valuesAt, List.map_map]
    simp [size, cell, Schema.cell, hi]
  simp [column, Schema.indexOf, hi, hcells]

theorem valuesAt_mem {r : Relation} {i : ℕ} (h : i < r.size) : r.valuesAt i ∈ r.rows := by
  have hi : i < r.rows.length := h
  simp [valuesAt, hi]

theorem cell_of_size_le {r : Relation} (name : String) {i : ℕ} (h : r.size ≤ i) :
    r.cell name i = .null := by
  have hi : r.rows.length ≤ i := h
  simp only [cell, valuesAt, List.getElem?_eq_none hi, Option.getD_none, Schema.cell]
  cases r.schema.indexOf? name <;> rfl

instance (r : Relation) : Decidable r.WellFormed :=
  inferInstanceAs (Decidable (∀ row ∈ r.rows, row.length = r.schema.width ∧
    ∀ cell ∈ row.zip r.schema.columns, cell.1.conforms cell.2.type = true))

theorem WellFormed.length_eq {r : Relation} (hr : r.WellFormed) {values : List Value}
    (h : values ∈ r.rows) : values.length = r.schema.width := (hr values h).1

theorem WellFormed.conforms {r : Relation} (hr : r.WellFormed) {values : List Value}
    (h : values ∈ r.rows) {name : String} {type : ColumnType}
    (ht : r.schema.typeOf name = .ok type) :
    (r.schema.cell values name).conforms type = true := by
  obtain ⟨i, c, hi, hc, rfl⟩ := Schema.typeOf_eq_ok.mp ht
  have hlt : i < values.length := hr.length_eq h ▸ Schema.lt_width_of_indexOf? hi
  obtain ⟨hci, rfl⟩ := List.getElem?_eq_some_iff.mp hc
  have hlen : i < (values.zip r.schema.columns).length := by
    rw [List.length_zip]
    exact Nat.lt_min.mpr ⟨hlt, hci⟩
  have hzip := List.getElem_mem hlen
  rw [List.getElem_zip] at hzip
  simpa [Schema.cell, hi, hlt] using (hr values h).2 _ hzip

theorem WellFormed.conforms_cells {r : Relation} (hr : r.WellFormed) {positions : List ℕ}
    (hin : ∀ i ∈ positions, i < r.size) {name : String} {type : ColumnType}
    (ht : r.schema.typeOf name = .ok type) :
    ∀ v ∈ positions.map (r.cell name), v.conforms type = true :=
  List.forall_mem_map.mpr fun i hi => hr.conforms (valuesAt_mem (hin i hi)) ht

theorem WellFormed.conforms_cell {r : Relation} (hr : r.WellFormed) {name : String}
    {type : ColumnType} (ht : r.schema.typeOf name = .ok type) (i : ℕ) :
    (r.cell name i).conforms type = true := by
  by_cases hi : i < r.size
  · exact hr.conforms (valuesAt_mem hi) ht
  · rw [cell_of_size_le name (Nat.le_of_not_lt hi)]
    rfl

/-- Every cell of a row conforms to the type of some column. -/
theorem WellFormed.exists_column {r : Relation} (hr : r.WellFormed) {row : List Value}
    (hrow : row ∈ r.rows) {v : Value} (hv : v ∈ row) :
    ∃ c ∈ r.schema.columns, v.conforms c.type = true := by
  have hlength : row.length ≤ r.schema.columns.length := Nat.le_of_eq (hr.length_eq hrow)
  rw [← List.map_fst_zip hlength] at hv
  obtain ⟨p, hp, rfl⟩ := List.mem_map.mp hv
  exact ⟨p.2, (List.of_mem_zip hp).2, (hr row hrow).2 p hp⟩

theorem exists_typeOf {r : Relation} {name : String} (h : name ∈ r.names) :
    ∃ type, r.schema.typeOf name = .ok type := by
  obtain ⟨i, hi⟩ := Schema.exists_indexOf h
  obtain ⟨c, hc, -⟩ := Schema.indexOf?_eq_some hi
  exact ⟨c.type, Schema.typeOf_eq_ok.mpr ⟨i, c, hi, hc, rfl⟩⟩

theorem WellFormed.sameKey_cell {r : Relation} (hr : r.WellFormed) {i : ℕ} (hi : i < r.size)
    {name : String} (h : name ∈ r.names) : (r.cell name i).sameKey (r.cell name i) = true := by
  obtain ⟨type, ht⟩ := exists_typeOf h
  exact Value.sameKey_self (hr.conforms (valuesAt_mem hi) ht)

theorem WellFormed.sameKeys_cells {r : Relation} (hr : r.WellFormed) {i : ℕ} (hi : i < r.size)
    {names : List String} (h : ∀ name ∈ names, name ∈ r.names) :
    Value.sameKeys (r.cells names i) (r.cells names i) = true := by
  refine Value.sameKeys_self fun v hv => ?_
  obtain ⟨name, hname, rfl⟩ := List.mem_map.mp hv
  exact hr.sameKey_cell hi (h name hname)

theorem WellFormed.valuesOf_row {r : Relation} (hr : r.WellFormed) {names : List String}
    (hnames : ∀ name ∈ names, name ∈ r.names) {values : List Value} (h : values ∈ r.rows) :
    Hierarchy.valuesOf (r.row values) names = .ok (names.map (r.schema.cell values)) :=
  Result.mapM_eq_map fun name hname => Row.get_eq_cell (hr.length_eq h) (hnames name hname)

/-- A filter of the rows, by position. -/
theorem filter_rows (r : Relation) (p : List Value → Bool) :
    r.rows.filter p =
      ((List.range r.size).filter fun j => p (r.valuesAt j)).map r.valuesAt := by
  conv_lhs => rw [r.rows_eq_map_valuesAt]
  rw [List.filter_map]
  rfl

end Relation
end OrderedRelations
