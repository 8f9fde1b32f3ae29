import OrderedRelations.Proofs.Relation.Extension

/-!
# Wider relations

A wider relation has further columns behind those of a narrower one, and the same rows with further
cells behind their own. Under the names of the narrower relation both have the same places, types
and cells, so selecting these names gives the narrower relation back.
-/

namespace OrderedRelations

namespace Schema

variable {s wide : Schema} {name : String}

theorem indexOf?_wider (h : s.columns <+: wide.columns) (hname : name ∈ s.names) :
    wide.indexOf? name = s.indexOf? name := by
  obtain ⟨extra, hextra⟩ := h
  obtain ⟨i, hi⟩ := exists_indexOf hname
  rw [hi]
  unfold indexOf? at hi ⊢
  rw [← hextra, List.findIdx?_append, hi]
  rfl

theorem typeOf_wider (h : s.columns <+: wide.columns) (hname : name ∈ s.names) :
    wide.typeOf name = s.typeOf name := by
  obtain ⟨i, hi⟩ := exists_indexOf hname
  obtain ⟨c, hc, -⟩ := indexOf?_eq_some hi
  obtain ⟨hlt, rfl⟩ := List.getElem?_eq_some_iff.mp hc
  have hwide := List.prefix_iff_getElem?.mp h i hlt
  rw [typeOf_eq_ok.mpr ⟨i, _, hi, hc, rfl⟩,
    typeOf_eq_ok.mpr ⟨i, _, (indexOf?_wider h hname).trans hi, hwide, rfl⟩]

theorem mem_names_wider (h : s.columns <+: wide.columns) (hname : name ∈ s.names) :
    name ∈ wide.names :=
  (h.map Column.name).subset hname

/-- The place of a column is where it stands. -/
theorem indexOf?_name {i : ℕ} (hi : i < s.columns.length) :
    s.indexOf? s.columns[i].name = some i := by
  refine List.findIdx?_eq_some_iff_getElem.mpr ⟨hi, by simp, fun j hj => ?_⟩
  have hne := List.pairwise_iff_getElem.mp s.distinct j i (by simp; omega) (by simpa) hj
  simpa using hne

theorem column_name {i : ℕ} (hi : i < s.columns.length) :
    s.column s.columns[i].name = .ok s.columns[i] := by
  have hfind : s.find? s.columns[i].name =
      (s.indexOf? s.columns[i].name).bind (s.columns[·]?) := List.find?_eq_bind_findIdx?_getElem?
  rw [indexOf?_name hi, Option.bind_some, List.getElem?_eq_getElem hi] at hfind
  rw [column, hfind, Result.orElse_some]

/-- The names of a narrower schema select it. -/
theorem select_names (h : s.columns <+: wide.columns) : wide.select s.names = .ok s := by
  have hcolumns : s.names.mapM wide.column = .ok s.columns := by
    rw [Result.mapM_eq_ok, names, List.forall₂_map_left_iff, List.forall₂_same]
    intro c hc
    obtain ⟨i, hi, rfl⟩ := List.getElem_of_mem hc
    have hlt : i < wide.columns.length := Nat.lt_of_lt_of_le hi h.length_le
    rw [h.getElem hi]
    exact column_name hlt
  rw [select, hcolumns, Result.ok_bind, ofColumns, dif_pos s.distinct]

/-- The names of a narrower schema have the places in front. -/
theorem places_names (h : s.columns <+: wide.columns) :
    s.names.mapM wide.indexOf = .ok (List.range s.width) := by
  refine Result.mapM_eq_ok.mpr (List.forall₂_iff_get.mpr ⟨by simp [names, width], ?_⟩)
  intro i hi _
  simp only [names, List.length_map] at hi
  have hplace := indexOf?_name hi
  rw [← indexOf?_wider h (List.mem_map.mpr ⟨_, List.getElem_mem hi, rfl⟩)] at hplace
  simpa [names] using indexOf_eq_ok.mpr hplace

end Schema

namespace Relation

/-- The cells of a row under all names are its values. -/
theorem WellFormed.cells_names {r : Relation} (hr : r.WellFormed) {i : ℕ} (hi : i < r.size) :
    r.cells r.names i = r.valuesAt i := by
  have hlength : (r.valuesAt i).length = r.schema.columns.length :=
    hr.length_eq (valuesAt_mem hi)
  refine List.ext_getElem (by simp [cells, names, Schema.names, hlength]) fun k hk hk' => ?_
  have hplace := Schema.indexOf?_name (hlength ▸ hk')
  simp [cells, names, Schema.names, cell, Schema.cell, hplace, hk']

/-- A relation with the rows of another one, each with further cells behind its own, under further
columns. -/
structure Widens (r wide : Relation) : Prop where
  columns : r.schema.columns <+: wide.schema.columns
  rows : List.Forall₂ (· <+: ·) r.rows wide.rows

namespace Widens

variable {r s wide : Relation} {name : String}

theorem refl (r : Relation) : Widens r r :=
  ⟨List.prefix_refl _, List.forall₂_same.mpr fun row _ => List.prefix_refl row⟩

theorem trans (h : Widens r s) (h' : Widens s wide) : Widens r wide := by
  refine ⟨h.columns.trans h'.columns, List.forall₂_iff_get.mpr
    ⟨h.rows.length_eq.trans h'.rows.length_eq, fun i hi hi' => ?_⟩⟩
  have hs : i < s.rows.length := h.rows.length_eq ▸ hi
  exact (h.rows.get hi hs).trans (h'.rows.get hs hi')

theorem size_eq (h : Widens r wide) : wide.size = r.size := h.rows.length_eq.symm

theorem mem_names (h : Widens r wide) (hname : name ∈ r.names) : name ∈ wide.names :=
  Schema.mem_names_wider h.columns hname

theorem valuesAt_wider (h : Widens r wide) (i : ℕ) : r.valuesAt i <+: wide.valuesAt i := by
  by_cases hi : i < r.rows.length
  · have hi' : i < wide.rows.length := h.rows.length_eq ▸ hi
    simpa [valuesAt, hi, hi'] using h.rows.get hi hi'
  · have hi' : ¬ i < wide.rows.length := h.rows.length_eq ▸ hi
    simp [valuesAt, hi]

/-- Behind the cells of a narrower row nothing changes them. -/
theorem cell_eq (hr : r.WellFormed) (h : Widens r wide) (hname : name ∈ r.names) (i : ℕ) :
    wide.cell name i = r.cell name i := by
  by_cases hi : i < r.size
  · obtain ⟨place, hplace⟩ := Schema.exists_indexOf hname
    have hlt : place < (r.valuesAt i).length :=
      hr.length_eq (valuesAt_mem hi) ▸ Schema.lt_width_of_indexOf? hplace
    have hwide := List.prefix_iff_getElem?.mp (h.valuesAt_wider i) place hlt
    simp only [cell, Schema.cell, Schema.indexOf?_wider h.columns hname, hplace,
      Option.bind_some, hwide, List.getElem?_eq_getElem hlt]
  · have hi := Nat.le_of_not_lt hi
    rw [cell_of_size_le name hi, cell_of_size_le name (h.size_eq ▸ hi)]

theorem column_eq (hr : r.WellFormed) (h : Widens r wide) (hname : name ∈ r.names) :
    wide.column name = r.column name := by
  rw [column_eq_ok hname, column_eq_ok (h.mem_names hname), h.size_eq]
  exact congrArg _ (List.map_congr_left fun i _ => h.cell_eq hr hname i)

theorem cells_eq (hr : r.WellFormed) (h : Widens r wide) {names : List String}
    (hnames : ∀ name ∈ names, name ∈ r.names) (i : ℕ) : wide.cells names i = r.cells names i :=
  List.map_congr_left fun name hname => h.cell_eq hr (hnames name hname) i

/-- Selecting the names of a narrower relation gives it back, row by row. -/
theorem select_eq (hr : r.WellFormed) (h : Widens r wide) : wide.select r.names = .ok r := by
  have hrows : wide.rows.map (fun row => (List.range r.schema.width).map
      fun i => row[i]?.getD .null) = r.rows := by
    refine List.ext_getElem (by simp [h.rows.length_eq]) fun i hi hi' => ?_
    simp only [List.length_map] at hi
    have hlength := hr.length_eq (List.getElem_mem hi')
    have hprefix := h.rows.get hi' hi
    rw [List.get_eq_getElem, List.get_eq_getElem] at hprefix
    rw [List.getElem_map]
    refine List.ext_getElem (by simp [hlength]) fun j hj hj' => ?_
    have hcell := List.prefix_iff_getElem?.mp hprefix j hj'
    simp [hcell]
  rw [select, names, Schema.select_names h.columns, Result.ok_bind, Schema.places_names h.columns,
    Result.ok_bind, hrows]
  rfl

end Widens

namespace Appended

variable {r s : Relation} {c : Column} {cells : List Value}

theorem names (h : Appended r c cells s) : s.names = r.names ++ [c.name] := by
  simp [Relation.names, Schema.names, h.columns]

theorem widens (h : Appended r c cells s) : Widens r s := by
  refine ⟨⟨[c], h.columns.symm⟩, ?_⟩
  have hlength : r.rows.length = cells.length := h.length.symm
  rw [h.rows, List.forall₂_iff_get]
  refine ⟨by simp [hlength], fun i hi hi' => ?_⟩
  simp

private theorem indexOf? (h : Appended r c cells s) :
    s.schema.indexOf? c.name = some r.schema.width := by
  have hlt : r.schema.width < s.schema.columns.length := by simp [h.columns, Schema.width]
  have hc : s.schema.columns[r.schema.width] = c := by simp [h.columns, Schema.width]
  simpa [hc] using Schema.indexOf?_name hlt

theorem typeOf (h : Appended r c cells s) : s.schema.typeOf c.name = .ok c.type :=
  Schema.typeOf_eq_ok.mpr ⟨_, c, h.indexOf?, by simp [h.columns, Schema.width], rfl⟩

/-- The new column holds the new cells. -/
theorem column (hr : r.WellFormed) (h : Appended r c cells s) : s.column c.name = .ok cells := by
  have hcells : s.columnAt r.schema.width = cells := by
    rw [columnAt, h.rows]
    refine List.ext_getElem (by simp [h.length, size]) fun i hi hi' => ?_
    simp only [List.length_map, List.length_zipWith, Nat.lt_min] at hi
    have hlength := hr.length_eq (List.getElem_mem hi.1)
    simp [← hlength]
  rw [Relation.column, Schema.indexOf_eq_ok.mpr h.indexOf?, Result.ok_bind, hcells]
  rfl

theorem cell (hr : r.WellFormed) (h : Appended r c cells s) {i : Nat} (hi : i < r.size) :
    some (s.cell c.name i) = cells[i]? := by
  have hname : c.name ∈ s.names := by simp [h.names]
  have hcells := (column_eq_ok hname).symm.trans (h.column hr)
  rw [h.widens.size_eq, Except.ok.injEq] at hcells
  simp [← hcells, hi]

theorem column_ne (hr : r.WellFormed) (h : Appended r c cells s) {name : String}
    (hname : name ∈ r.names) :
    s.schema.typeOf name = r.schema.typeOf name ∧ s.column name = r.column name :=
  ⟨Schema.typeOf_wider h.widens.columns hname, h.widens.column_eq hr hname⟩

end Appended

/-- Conforming values that become a column are its cells. -/
theorem WellFormed.cell_of_withColumn {r s : Relation} (hr : r.WellFormed) {name : String}
    {type : ColumnType} {values : List Value} (hvalues : ∀ v ∈ values, v.conforms type = true)
    (h : r.withColumn name type values = .ok s) :
    s.WellFormed ∧ Widens r s ∧ name ∈ s.names ∧ ∀ i v, values[i]? = some v → s.cell name i = v := by
  obtain ⟨hname, cells, -, hcells, happended⟩ := withColumn_iff.mp h
  rw [Result.mapM_eq_self fun v hv => Column.coerce_of_conforms (hvalues v hv)] at hcells
  cases hcells
  refine ⟨happended.wellFormed hr hvalues, happended.widens, by simp [happended.names], ?_⟩
  intro i v hv
  have hi : i < r.size := happended.length ▸ (List.getElem?_eq_some_iff.mp hv).1
  exact Option.some.inj ((happended.cell hr hi).trans hv)

end Relation
end OrderedRelations
