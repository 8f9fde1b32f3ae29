import Mathlib.Algebra.Group.Nat.Defs
import Mathlib.Data.List.Zip
import OrderedRelations.Columnar.Table
import OrderedRelations.Proofs.Calendar.DayCounts
import OrderedRelations.Proofs.Relation.Widening

/-!
# Relations in columnar form

A columnar table holds the cells of a relation column by column, and days as counts. A relation
without moments, and with whole numbers of 64 bits, comes back from it as it was.
-/

namespace OrderedRelations

namespace Selection

/-- Names that stand for nothing but themselves. -/
def Plain (name : String) : Prop := name ≠ "*" ∧ isPattern name = false

instance (name : String) : Decidable (Plain name) := inferInstanceAs (Decidable (_ ∧ _))

variable {names leftOut wanted : List String}

theorem columnsFor_eq {name : String} (hplain : Plain name) (hname : name ∈ names) :
    columnsFor names leftOut name = .ok [name] := by
  simp [columnsFor, hplain.1, hplain.2, hname]

theorem columns_eq (hplain : ∀ name ∈ wanted, Plain name) (hnames : ∀ name ∈ wanted, name ∈ names) :
    columns names leftOut wanted = .ok wanted := by
  have hsingle : wanted.mapM (columnsFor names leftOut) = .ok (wanted.map fun name => [name]) :=
    Result.mapM_eq_map fun name hname => columnsFor_eq (hplain name hname) (hnames name hname)
  rw [columns, hsingle, Result.map_ok]
  exact congrArg _ (List.flatMap_singleton' wanted)

theorem distinct_eq (hplain : ∀ name ∈ wanted, Plain name) (hnames : ∀ name ∈ wanted, name ∈ names)
    (hdistinct : wanted.Nodup) : distinct names wanted = .ok wanted := by
  simp [distinct, columns_eq hplain hnames, hdistinct]

end Selection

namespace Value

/-- The form in which a columnar table holds a cell: days are counted. -/
def stored : Value → Value
  | date d => int d.sinceEpoch
  | v => v

/-- Cells that come back as they were: no moments, and of the whole numbers those of 64 bits. -/
def Storable : Value → Prop
  | int n => DataType.inSigned 64 n = true
  | datetime _ => False
  | _ => True

instance (v : Value) : Decidable v.Storable := by
  cases v <;> unfold Storable <;> infer_instance

end Value

namespace DataType

variable {type : ColumnType} {v : Value}

/-- Counts below half of all numbers of 64 bits are among the signed ones. -/
theorem inSigned_natCast {n : ℕ} (hn : n < 2 ^ 63) : inSigned 64 n = true := by
  simp only [inSigned, Nat.pow_eq, Bool.and_eq_true, decide_eq_true_eq]
  omega

end DataType

namespace Table

/-- All columns of a table are selected by their names. -/
theorem select_names {t : Table} (hdistinct : t.names.Nodup)
    (hplain : ∀ name ∈ t.names, Selection.Plain name) : t.select t.names = .ok t := by
  have hfound : t.names.filterMap t.find? = t.columns := by
    rw [names, List.filterMap_map]
    refine Eq.trans (List.filterMap_congr fun c hc => ?_) List.filterMap_some
    rw [Function.comp_apply, find?]
    cases hd : t.columns.find? fun d => decide (d.name = c.name) with
    | none => simpa using List.find?_eq_none.mp hd c hc
    | some d =>
      exact congrArg _ (List.inj_on_of_nodup_map hdistinct (List.mem_of_find?_eq_some hd) hc
        (by simpa using List.find?_some hd))
  rw [select, Selection.distinct_eq hplain (fun _ h => h) hdistinct, Result.ok_bind, hfound]
  rfl

end Table

namespace Relation

variable {r : Relation}

/-- The columnar form of a column at its place. -/
def storedColumn (r : Relation) (p : Column × ℕ) : TableColumn :=
  ⟨p.1.name, .ofColumnType p.1.type, (r.columnAt p.2).map Value.stored⟩

/-- The columnar form of a relation. -/
def stored (r : Relation) : Table := ⟨r.schema.columns.zipIdx.map r.storedColumn⟩

/-- Whether all cells of a relation come back from a columnar table. -/
def Storable (r : Relation) : Prop := ∀ row ∈ r.rows, ∀ v ∈ row, v.Storable

instance (r : Relation) : Decidable r.Storable :=
  inferInstanceAs (Decidable (∀ row ∈ r.rows, ∀ v ∈ row, v.Storable))

theorem Storable.columnAt (hs : r.Storable) (i : ℕ) : ∀ v ∈ r.columnAt i, v.Storable := by
  intro v hv
  obtain ⟨row, hrow, rfl⟩ := List.mem_map.mp hv
  cases h : row[i]? with
  | none => trivial
  | some w => exact hs row hrow w (List.mem_of_getElem? h)

theorem Storable.cell (hs : r.Storable) (name : String) (i : ℕ) : (r.cell name i).Storable := by
  by_cases hi : i < r.size
  · rw [Relation.cell, Schema.cell]
    cases hv : (r.schema.indexOf? name).bind ((r.valuesAt i)[·]?) with
    | none => trivial
    | some v =>
      obtain ⟨place, -, hplace⟩ := Option.bind_eq_some_iff.mp hv
      exact hs _ (valuesAt_mem hi) v (List.mem_of_getElem? hplace)
  · rw [cell_of_size_le name (Nat.le_of_not_lt hi)]
    trivial

end Relation
end OrderedRelations
