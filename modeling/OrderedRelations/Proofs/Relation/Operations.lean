import Mathlib.Data.Int.Notation
import OrderedRelations.Proofs.Relation.Widening

/-!
# Operations that build relations

A row fits a schema where it has one value for each column, null or of the column's type. Values
enter a relation through the columns, so the rows that are read fit; the operations that take their
rows from relations pass on fitting rows, or put together what fits.
-/

namespace OrderedRelations

/-- The cells of a column: nulls, and values of the column's very type. -/
inductive ColumnType.Holds : ColumnType → Value → Prop
  | null (type : ColumnType) : Holds type .null
  | integer (n : ℤ) : Holds .integer (.int n)
  | float (x : Binary64) : Holds .float (.float x)
  | text (s : String) : Holds .text (.text s)
  | date (d : Date) : Holds .date (.date d)
  | datetime (t : DateTime) : Holds .datetime (.datetime t)
  | boolean (b : Bool) : Holds .boolean (.bool b)

theorem ColumnType.Holds.conforms {type : ColumnType} {v : Value} (h : type.Holds v) :
    v.conforms type = true := by
  cases h <;> rfl

theorem Value.holds_of_conforms {type : ColumnType} {v : Value} (h : v.conforms type = true) :
    type.Holds v := by
  cases v with
  | null => exact .null type
  | time _ | duration _ | list _ | record _ => cases h
  | _ =>
    obtain rfl := of_decide_eq_true h
    constructor

namespace Column

/-- The values that enter a column: those that conform, and in a column of doubles the whole
numbers that a double is near to. -/
def Takes (c : Column) (v : Value) : Prop :=
  v.conforms c.type = true ∨ c.type = .float ∧ ∃ n x, v = .int n ∧ Binary64.ofInt? n = some x

theorem takes_iff {c : Column} {v : Value} : c.Takes v ↔ ∃ w, c.coerce v = .ok w := by
  constructor
  · rintro (h | ⟨hfloat, n, x, rfl, hx⟩)
    · exact ⟨v, coerce_of_conforms h⟩
    · exact ⟨.float x, by simp [coerce, hfloat, hx]⟩
  · rintro ⟨w, h⟩
    obtain ⟨hconforms, rfl | ⟨hfloat, n, x, hn, hx, -⟩⟩ := coerce_eq_ok h
    · exact .inl hconforms
    · exact .inr ⟨hfloat, n, x, hn, hx⟩

end Column

namespace Schema

/-- A row with one value for each column, null or of the column's type. -/
def Fits (s : Schema) (row : List Value) : Prop :=
  row.length = s.width ∧ ∀ cell ∈ row.zip s.columns, cell.1.conforms cell.2.type = true

theorem column_eq_ok {s : Schema} {name : String} {c : Column} :
    s.column name = .ok c ↔ c ∈ s.columns ∧ c.name = name := by
  constructor
  · intro h
    have hfind := Result.orElse_eq_ok.mp h
    exact ⟨List.mem_of_find?_eq_some hfind, by simpa using List.find?_some hfind⟩
  · rintro ⟨hc, rfl⟩
    obtain ⟨i, hi, rfl⟩ := List.getElem_of_mem hc
    exact column_name hi

theorem typeOf_of_column {s : Schema} {name : String} {c : Column} (h : s.column name = .ok c) :
    s.typeOf name = .ok c.type := by
  rw [typeOf, h]
  rfl

/-- Columns are found under the names that they have. -/
theorem names_of_columns {s : Schema} {names : List String} {columns : List Column}
    (h : names.mapM s.column = .ok columns) : columns.map Column.name = names := by
  rw [← List.forall₂_eq_eq_eq, List.forall₂_map_left_iff]
  exact ((Result.mapM_eq_ok.mp h).imp fun name c hc => (column_eq_ok.mp hc).2).flip

theorem fits_iff {s : Schema} {row : List Value} :
    s.Fits row ↔ List.Forall₂ (fun v c => v.conforms c.type = true) row s.columns := by
  rw [List.forall₂_iff_zip]
  exact and_congr_right fun _ => ⟨fun h _ _ hmem => h _ hmem, fun h cell hmem => h hmem⟩

end Schema

namespace Relation

variable {schema : Schema} {r s : Relation}

/-- A row is read exactly where it has one value for each column, and these enter the columns. -/
theorem exists_coerceRow {values : List Value} :
    (∃ row, coerceRow schema values = .ok row) ↔
      values.length = schema.width ∧ ∀ p ∈ schema.columns.zip values, p.1.Takes p.2 := by
  unfold coerceRow
  split
  · rename_i hlength
    simp only [hlength, true_and, Column.takes_iff]
    exact Result.exists_mapM_iff
  · rename_i hlength
    simp [hlength]

theorem fits_of_coerceRow {values row : List Value} (h : coerceRow schema values = .ok row) :
    schema.Fits row := by
  unfold coerceRow at h
  split at h
  · rename_i hlength
    have hall := Result.mapM_eq_ok.mp h
    have hrow : row.length = schema.columns.length := by
      rw [← hall.length_eq, List.length_zip, hlength, Schema.width, Nat.min_self]
    refine Schema.fits_iff.mpr (List.forall₂_iff_get.mpr ⟨hrow, fun i hi hi' => ?_⟩)
    have hcoerced := hall.get (hall.length_eq ▸ hi) hi
    simp only [List.get_eq_getElem, List.getElem_zip] at hcoerced ⊢
    exact (Column.coerce_eq_ok hcoerced).1
  · cases h

/-- A record or a row is read value by value. -/
theorem fits_of_rowOfEntry {entry : Entry} {row : List Value}
    (hfits : ∀ own, entry = .row own → own.schema.Fits own.values)
    (h : rowOfEntry schema entry = .ok row) : schema.Fits row := by
  cases entry with
  | row own =>
    by_cases heq : own.schema = schema
    · rw [rowOfEntry, if_pos heq] at h
      cases h
      exact heq ▸ hfits own rfl
    · rw [rowOfEntry, if_neg heq] at h
      obtain ⟨_, -, h⟩ := Result.bind_eq_ok.mp h
      obtain ⟨values, -, h⟩ := Result.bind_eq_ok.mp h
      exact fits_of_coerceRow h
  | record v =>
    cases v with
    | record fields =>
      rw [rowOfEntry, rowOfRecord] at h
      obtain ⟨_, -, h⟩ := Result.bind_eq_ok.mp h
      dsimp only at h
      split at h
      · exact fits_of_coerceRow h
      · cases h
    | _ => cases h

theorem wellFormed_of_make {entries : List Entry}
    (hfits : ∀ row, .row row ∈ entries → row.schema.Fits row.values)
    (h : make schema entries = .ok r) : r.WellFormed := by
  obtain ⟨rows, hrows, h⟩ := Result.bind_eq_ok.mp h
  cases h
  intro row hrow
  obtain ⟨entry, hentry, hread⟩ := Result.exists_source_of_mapM hrows hrow
  exact fits_of_rowOfEntry (fun own heq => hfits own (heq ▸ hentry)) hread

theorem make_records (schema : Schema) (records : List Value) :
    make schema (records.map .record) = ofRecords schema records := by
  rw [make, ofRecords, List.mapM_map]
  rfl

theorem make_rows (r : Relation) (schema : Schema) :
    make schema (r.rows.map fun values => .row (r.row values)) = r.rebuild schema := by
  unfold make rebuild
  rw [List.mapM_map]
  by_cases h : schema = r.schema
  · subst h
    have hkept : r.rows.mapM (rowOfEntry r.schema ∘ fun values => .row (r.row values)) =
        .ok r.rows := Result.mapM_eq_self fun values _ => if_pos rfl
    rw [if_pos rfl, hkept]
    rfl
  · rw [if_neg h]
    have hread : (rowOfEntry schema ∘ fun values => .row (r.row values)) =
        fun values => rowOfRow schema (r.row values) :=
      funext fun values => if_neg fun heq => h heq.symm
    rw [hread]

theorem wellFormed_of_ofRows {rows : List (List Value)} (h : ofRows schema rows = .ok r) :
    r.WellFormed := by
  obtain ⟨read, hread, h⟩ := Result.bind_eq_ok.mp h
  cases h
  intro row hrow
  obtain ⟨values, -, hvalues⟩ := Result.exists_source_of_mapM hread hrow
  exact fits_of_coerceRow hvalues

theorem wellFormed_empty (schema : Schema) : (empty schema).WellFormed :=
  fun _ h => nomatch h

namespace WellFormed

/-- Fewer rows of a relation, or the same ones in another order, fit as well. -/
theorem of_subset (hr : r.WellFormed) {rows : List (List Value)} (h : ∀ row ∈ rows, row ∈ r.rows) :
    WellFormed ⟨r.schema, rows⟩ := fun row hrow => hr row (h row hrow)

theorem withColumn (hr : r.WellFormed) {name : String} {type : ColumnType} {values : List Value}
    (h : r.withColumn name type values = .ok s) : s.WellFormed := by
  obtain ⟨hname, cells, -, hcells, happended⟩ := withColumn_iff.mp h
  refine happended.wellFormed hr fun v hv => ?_
  obtain ⟨_, -, hentered⟩ := Result.exists_source_of_mapM hcells hv
  exact (Column.coerce_eq_ok hentered).1

theorem withLabelledColumn (hr : r.WellFormed) {name label : Value} {values : List Value}
    (h : r.withLabelledColumn name label values = .ok s) : s.WellFormed := by
  obtain ⟨_, -, h⟩ := Result.bind_eq_ok.mp h
  obtain ⟨type, -, h⟩ := Result.bind_eq_ok.mp h
  obtain ⟨c, -, h⟩ := Result.bind_eq_ok.mp h
  exact hr.withColumn h

theorem concat {t : Relation} (hr : r.WellFormed) (hs : s.WellFormed) (h : r.concat s = .ok t) :
    t.WellFormed := by
  unfold Relation.concat at h
  split at h
  · rename_i hschema
    cases h
    intro row hrow
    rcases List.mem_append.mp hrow with hrow | hrow
    · exact hr row hrow
    · exact hschema ▸ hs row hrow
  · cases h

theorem filter (hr : r.WellFormed) {test : Row → Result Bool} (h : r.filter test = .ok s) :
    s.WellFormed := by
  obtain ⟨rows, hrows, h⟩ := Result.bind_eq_ok.mp h
  cases h
  exact hr.of_subset fun row hrow => (Result.keep_sublist hrows).subset hrow

/-- A name finds the type of a column and the place of its cells. -/
theorem select (hr : r.WellFormed) {names : List String} (h : r.select names = .ok s) :
    s.WellFormed := by
  obtain ⟨schema, hschema, h⟩ := Result.bind_eq_ok.mp h
  obtain ⟨places, hplaces, h⟩ := Result.bind_eq_ok.mp h
  obtain ⟨columns, hcolumns, hschema⟩ := Result.bind_eq_ok.mp hschema
  rw [Schema.ofColumns_eq_ok] at hschema
  cases h
  intro row hrow
  obtain ⟨values, hvalues, rfl⟩ := List.mem_map.mp hrow
  have hcells : places.map (fun i => values[i]?.getD .null) = names.map (r.schema.cell values) :=
    Schema.keyOf_places hplaces values
  rw [hcells]
  refine Schema.fits_iff.mpr ?_
  rw [hschema, List.forall₂_map_left_iff]
  refine (Result.mapM_eq_ok.mp hcolumns).imp fun name c hc => ?_
  exact hr.conforms hvalues (Schema.typeOf_of_column hc)

theorem fits_rowAt (hr : r.WellFormed) {i : Int} {row : Row} (h : r.rowAt i = .ok row) :
    row.schema = r.schema ∧ r.schema.Fits row.values := by
  unfold rowAt at h
  generalize (if i < 0 then i + r.size else i) = j at h
  dsimp only at h
  split at h
  · cases h
  · obtain ⟨values, hvalues, rfl⟩ := Result.map_eq_ok.mp h
    exact ⟨rfl, hr values (List.mem_of_getElem? (Result.orElse_eq_ok.mp hvalues))⟩

end WellFormed

end Relation
end OrderedRelations
