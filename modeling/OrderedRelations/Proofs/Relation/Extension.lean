import OrderedRelations.Proofs.Relation.Cell

/-!
# Relations with one more column

A column with a new name and conforming values is accepted, and every row keeps its values in
front of the new one.
-/

namespace OrderedRelations

/-- The values that a column of a type takes: those that conform, and whole numbers where it widens
them. -/
def ColumnType.Accepts (type : ColumnType) (v : Value) : Prop :=
  v.conforms type = true ∨ type = .float ∧ ∃ n, v = .int n

namespace Column

open Result (Yields)

theorem coerce_of_conforms {c : Column} {v : Value} (h : v.conforms c.type = true) :
    c.coerce v = .ok v := by
  cases hc : c.type <;> cases v <;> simp_all [coerce, Value.conforms]

/-- An accepted value enters a column, unless it is a whole number that no double reaches. -/
theorem coerce_yields {c : Column} {v : Value} (h : c.type.Accepts v) :
    Yields (c.coerce v) fun w => w.conforms c.type = true := by
  rcases h with h | ⟨hfloat, n, rfl⟩
  · exact .inr ⟨v, coerce_of_conforms h, h⟩
  · simp only [coerce, hfloat]
    exact (Yields.orElse _).map fun x _ => rfl

theorem coerce_eq_error {c : Column} {v : Value} (h : ¬ c.type.Accepts v) :
    c.coerce v = .error (.schema (.nonconforming c.name c.type v)) := by
  have hconforms : v.conforms c.type = false := by
    simpa using fun hv => h (.inl hv)
  unfold coerce
  split
  · rename_i n hfloat
    exact absurd (.inr ⟨hfloat, n, rfl⟩) h
  · rw [if_neg (by simp [hconforms])]

/-- What enters a column stays as it is, unless it is a whole number that becomes a double. -/
theorem coerce_eq_ok {c : Column} {v w : Value} (h : c.coerce v = .ok w) :
    w.conforms c.type = true ∧ (w = v ∨ c.type = .float ∧
      ∃ n x, v = .int n ∧ Binary64.ofInt? n = some x ∧ w = .float x) := by
  unfold coerce at h
  split at h
  · rename_i n hfloat
    obtain ⟨x, hx, rfl⟩ := Result.map_eq_ok.mp h
    exact ⟨by simp [hfloat, Value.conforms], .inr ⟨hfloat, n, x, rfl, Result.orElse_eq_ok.mp hx, rfl⟩⟩
  · split at h
    · cases h
      exact ⟨‹_›, .inl rfl⟩
    · cases h

end Column

namespace Relation

/-- A column with a new name is appended as soon as its values enter it. -/
theorem withColumn_eq (r : Relation) {c : Column} (hnew : c.name ∉ r.names) {values : List Value}
    (hlen : values.length = r.size) :
    ∃ schema : Schema, schema.columns = r.schema.columns ++ [c] ∧
      r.withColumn c.name c.type values =
        (values.mapM c.coerce).map fun cells =>
          ⟨schema, r.rows.zipWith (fun row v => row ++ [v]) cells⟩ := by
  have hmake : Column.make (.text c.name) c.type = .ok c := by
    simp [Column.make, c.named]
  have hnodup : ((r.schema.columns ++ [c]).map Column.name).Nodup := by
    rw [List.map_append, List.nodup_append]
    refine ⟨r.schema.distinct, by simp, ?_⟩
    intro a ha b hb hab
    obtain rfl : b = c.name := by simpa using hb
    exact hnew (hab ▸ ha)
  have happend : r.schema.append c = .ok ⟨_, hnodup⟩ := dif_pos hnodup
  refine ⟨⟨_, hnodup⟩, rfl, ?_⟩
  rw [withColumn, checkLength, if_pos hlen, Result.ok_bind, hmake, Result.ok_bind, happend,
    Result.ok_bind]
  cases values.mapM c.coerce <;> rfl

/-- A relation with one more column, whose cells stand at the ends of the rows. -/
structure Appended (r : Relation) (c : Column) (cells : List Value) (s : Relation) : Prop where
  columns : s.schema.columns = r.schema.columns ++ [c]
  rows : s.rows = r.rows.zipWith (fun row v => row ++ [v]) cells
  length : cells.length = r.size

theorem exists_appended (r : Relation) {c : Column} (hnew : c.name ∉ r.names) {cells : List Value}
    (hlength : cells.length = r.size) : ∃ s, Appended r c cells s := by
  obtain ⟨schema, hcolumns, -⟩ := r.withColumn_eq hnew hlength
  exact ⟨⟨schema, _⟩, hcolumns, rfl, hlength⟩

/-- A column is appended exactly where it has a new name, its values enter it, and there is one for
each row. -/
theorem withColumn_iff {r s : Relation} {name : String} {type : ColumnType} {values : List Value} :
    r.withColumn name type values = .ok s ↔ ∃ (hname : name ≠ "") (cells : List Value),
      name ∉ r.names ∧ values.mapM (Column.coerce ⟨name, type, hname⟩) = .ok cells ∧
        Appended r ⟨name, type, hname⟩ cells s := by
  constructor
  · intro h
    obtain ⟨_, hlength, h⟩ := Result.bind_eq_ok.mp h
    obtain ⟨c, hmake, h⟩ := Result.bind_eq_ok.mp h
    obtain ⟨schema, hschema, h⟩ := Result.bind_eq_ok.mp h
    obtain ⟨cells, hcells, h⟩ := Result.bind_eq_ok.mp h
    cases h
    have hlength : values.length = r.size := by
      by_contra hne
      simp [checkLength, hne] at hlength
    have hname : name ≠ "" := by
      rintro rfl
      cases hmake
    obtain rfl : ⟨name, type, hname⟩ = c := by simpa [Column.make, hname] using hmake
    have hcolumns := Schema.ofColumns_eq_ok.mp hschema
    have hdistinct := schema.distinct
    rw [hcolumns, List.map_append, List.nodup_append] at hdistinct
    exact ⟨hname, cells, fun hmem => hdistinct.2.2 name hmem name (by simp) rfl, hcells, hcolumns,
      rfl, (Result.mapM_eq_ok.mp hcells).length_eq.symm.trans hlength⟩
  · rintro ⟨hname, cells, hnew, hcells, hcolumns, hrows, hlength⟩
    have hvalues : values.length = r.size := (Result.mapM_eq_ok.mp hcells).length_eq.trans hlength
    obtain ⟨schema, hschema, heq⟩ :=
      r.withColumn_eq (c := ⟨name, type, hname⟩) hnew hvalues
    rw [heq, hcells, Result.map_ok]
    obtain ⟨⟨columns, hdistinct⟩, rows⟩ := s
    obtain ⟨columns', hdistinct'⟩ := schema
    dsimp only at hcolumns hschema hrows
    subst hcolumns hschema hrows
    rfl

theorem withColumn_eq_ok (r : Relation) {type : ColumnType} {values : List Value}
    {name : String} (hname : name ≠ "") (hnew : name ∉ r.names)
    (hlen : values.length = r.size) (hvalues : ∀ v ∈ values, v.conforms type = true) :
    ∃ schema : Schema, r.withColumn name type values =
        .ok ⟨schema, r.rows.zipWith (fun row v => row ++ [v]) values⟩ ∧
      schema.columns = r.schema.columns ++ [⟨name, type, hname⟩] := by
  obtain ⟨schema, hcolumns, heq⟩ := r.withColumn_eq (c := ⟨name, type, hname⟩) hnew hlen
  have hcoerce : values.mapM (Column.coerce ⟨name, type, hname⟩) = .ok values :=
    Result.mapM_eq_self fun v hv => Column.coerce_of_conforms (hvalues v hv)
  refine ⟨schema, ?_, hcolumns⟩
  rw [heq, hcoerce, Result.map_ok]

/-- Conforming cells at the ends of its rows keep a relation well-formed. -/
theorem WellFormed.append {r : Relation} (hr : r.WellFormed) {c : Column} {schema : Schema}
    (hcolumns : schema.columns = r.schema.columns ++ [c]) {cells : List Value}
    (hcells : ∀ v ∈ cells, v.conforms c.type = true) :
    WellFormed ⟨schema, r.rows.zipWith (fun row v => row ++ [v]) cells⟩ := by
  intro row hrow
  obtain ⟨i, hi, rfl⟩ := List.getElem_of_mem hrow
  simp only [List.length_zipWith, Nat.lt_min] at hi
  have hold : r.rows[i] ∈ r.rows := List.getElem_mem hi.1
  have hlen : r.rows[i].length = r.schema.columns.length := hr.length_eq hold
  rw [List.getElem_zipWith]
  refine ⟨by simp [Schema.width, hcolumns, hlen], ?_⟩
  rw [hcolumns, List.zip_append hlen]
  intro cell hcell
  rcases List.mem_append.mp hcell with hcell | hcell
  · exact (hr _ hold).2 cell hcell
  · obtain rfl : cell = (cells[i], c) := by simpa using hcell
    exact hcells _ (List.getElem_mem hi.2)

theorem Appended.wellFormed {r s : Relation} {c : Column} {cells : List Value}
    (h : Appended r c cells s) (hr : r.WellFormed) (hcells : ∀ v ∈ cells, v.conforms c.type = true) :
    s.WellFormed := by
  obtain ⟨schema, rows⟩ := s
  obtain ⟨hcolumns, hrows, -⟩ := h
  dsimp only at hcolumns hrows
  subst hrows
  exact hr.append hcolumns hcells

end Relation

namespace Hierarchy

/-- An optional column that is asked for stands behind the others, and nothing changes
otherwise. -/
theorem withOptional_map {ι : Type} {schema : Schema} {name : Option String} (type : ColumnType)
    (entries : List ι) (row : ι → List Value) (value : ι → Value)
    (hnames : (schema.names ++ name.toList).Nodup) (hnamed : "" ∉ name.toList)
    (hvalues : ∀ e ∈ entries, (value e).conforms type = true) :
    ∃ longer : Schema, withOptional ⟨schema, entries.map row⟩ name type (entries.map value) =
        .ok ⟨longer, entries.map fun e => row e ++ name.toList.map fun _ => value e⟩ ∧
      longer.names = schema.names ++ name.toList := by
  cases name with
  | none => exact ⟨schema, by simp [withOptional], by simp⟩
  | some name =>
    obtain ⟨-, -, hnew⟩ := List.nodup_append.mp hnames
    have hname : name ≠ "" := by
      rintro rfl
      simp at hnamed
    have hall : ∀ v ∈ entries.map value, v.conforms type = true := by
      intro v hv
      obtain ⟨e, he, rfl⟩ := List.mem_map.mp hv
      exact hvalues e he
    obtain ⟨longer, heq, hcolumns⟩ := Relation.withColumn_eq_ok
      ⟨schema, entries.map row⟩ hname (fun h => hnew name h name (by simp) rfl)
      (by simp [Relation.size]) hall
    refine ⟨longer, ?_, by simp [Schema.names, hcolumns]⟩
    rw [withOptional, heq]
    simp [List.zipWith_map]

end Hierarchy
end OrderedRelations
