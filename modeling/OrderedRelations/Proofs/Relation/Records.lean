import OrderedRelations.Proofs.Number.Rounding
import OrderedRelations.Proofs.Relation.Operations
import OrderedRelations.Proofs.Text.NameOrder
import OrderedRelations.Proofs.Value.Fields

/-!
# Relations as records

The rows of a relation are records of its columns, and building a relation from these gives it back.
Any other records build one exactly if their keys are the columns and each value enters its column;
the order of their keys changes nothing, not even what a refusal says.
-/

namespace OrderedRelations

/-! ## What a column is given -/

namespace Column

variable {c : Column} {v : Value}

/-- The values that a column is given: its cells, and in a column of doubles the whole numbers in
their range. -/
inductive Admits (c : Column) : Value → Prop
  | cell {v : Value} (h : c.type.Holds v) : Admits c v
  | whole {n : ℤ} (doubles : c.type = .float) (range : |n| < 2 ^ 1024 - 2 ^ 970) : Admits c (.int n)

theorem admits_iff : c.Admits v ↔ c.Takes v := by
  constructor
  · rintro (h | ⟨doubles, range⟩)
    · exact .inl h.conforms
    · obtain ⟨x, hx⟩ := Binary64.exists_ofInt?_iff.mpr range
      exact .inr ⟨doubles, _, x, rfl, hx⟩
  · rintro (h | ⟨doubles, n, x, rfl, hx⟩)
    · exact .cell (Value.holds_of_conforms h)
    · exact .whole doubles (Binary64.exists_ofInt?_iff.mp ⟨x, hx⟩)

end Column

/-- A record that has the columns as its keys, and under each what the column is given. -/
structure Schema.Matches (s : Schema) (fields : FieldList) : Prop where
  keys : ∀ name, name ∈ fields.map Prod.fst ↔ name ∈ s.names
  values : ∀ c ∈ s.columns, ∀ v, (c.name, v) ∈ fields → c.Admits v

namespace Relation

variable {schema : Schema} {r : Relation} {fields others : FieldList} {values : List Value}

/-! ## Reading one record -/

theorem coerceRow_of_fits (h : schema.Fits values) : coerceRow schema values = .ok values := by
  have hcells :
      List.Forall₂ (fun p v => p.1.coerce p.2 = .ok v) (schema.columns.zip values) values := by
    refine List.forall₂_iff_get.mpr ⟨by simpa [Schema.width] using h.1.le, fun i hi hi' => ?_⟩
    have hcolumn : i < schema.columns.length := Nat.lt_of_lt_of_le hi (by simp)
    have hcell := (Schema.fits_iff.mp h).get hi' hcolumn
    simp only [List.get_eq_getElem, List.getElem_zip] at hcell ⊢
    exact Column.coerce_of_conforms hcell
  rw [coerceRow, if_pos h.1]
  exact Result.mapM_eq_ok.mpr hcells

theorem sortNames_perm {names names' : List String} (hdistinct : names.Nodup)
    (h : names.Perm names') : sortNames names' = sortNames names := by
  have hsame : ∀ {l : List String}, l.Nodup → l.eraseDups = l := by
    intro l hl
    induction l with
    | nil => rfl
    | cons name l ih =>
      obtain ⟨hnew, hl⟩ := List.nodup_cons.mp hl
      have hothers : l.filter (fun other => !other == name) = l :=
        List.filter_eq_self.mpr fun other hother => by
          simpa using ne_of_mem_of_not_mem hother hnew
      rw [List.eraseDups_cons, hothers, ih hl]
  rw [sortNames, sortNames, hsame hdistinct, hsame (h.nodup_iff.mp hdistinct)]
  exact Text.mergeSort_eq_of_perm h.symm

/-- The unknown names of a record. -/
def unknownNames (schema : Schema) (fields : FieldList) : List String :=
  (fields.map Prod.fst).filter fun name => !schema.contains name

theorem checkFields_eq : checkFields schema fields = if (unknownNames schema fields).isEmpty
    then .ok () else .error (.schema (.unknownFields (sortNames (unknownNames schema fields)))) := rfl

theorem checkFields_eq_ok :
    checkFields schema fields = .ok () ↔ ∀ name ∈ fields.map Prod.fst, name ∈ schema.names := by
  have hempty : (unknownNames schema fields).isEmpty ↔
      ∀ name ∈ fields.map Prod.fst, name ∈ schema.names := by
    simp [unknownNames, Schema.contains_iff]
  rw [← hempty, checkFields_eq]
  split_ifs with h <;> simp [h]

/-- A record is read exactly where its keys are the columns, and then as its values in the order of
these. -/
theorem rowOfFields_eq_ok {row : List Value} : rowOfFields schema fields = .ok row ↔
    (∀ name, name ∈ fields.map Prod.fst ↔ name ∈ schema.names) ∧
      coerceRow schema (schema.names.filterMap (fields.lookup ·)) = .ok row := by
  have hmissing : (schema.names.filter fun name => (fields.lookup name).isNone).isEmpty ↔
      ∀ name ∈ schema.names, name ∈ fields.map Prod.fst := by
    simp [← Fields.isSome_lookup, Option.isSome_iff_ne_none]
  rw [rowOfFields, Result.bind_eq_ok]
  constructor
  · rintro ⟨_, hknown, h⟩
    dsimp only at h
    split at h
    · rename_i hnone
      exact ⟨fun name => ⟨checkFields_eq_ok.mp hknown name, hmissing.mp hnone name⟩, h⟩
    · cases h
  · rintro ⟨hkeys, h⟩
    refine ⟨(), checkFields_eq_ok.mpr fun name => (hkeys name).mp, ?_⟩
    dsimp only
    rwa [if_pos (hmissing.mpr fun name => (hkeys name).mpr)]

/-- Where no value is missing, there is one for each name. -/
theorem forall₂_lookups {names : List String} (h : ∀ name ∈ names, name ∈ fields.map Prod.fst) :
    List.Forall₂ (fun name v => fields.lookup name = some v) names
      (names.filterMap (fields.lookup ·)) := by
  induction names with
  | nil => exact .nil
  | cons name names ih =>
    obtain ⟨hname, hnames⟩ := List.forall_mem_cons.mp h
    obtain ⟨v, hv⟩ := Option.isSome_iff_exists.mp (Fields.isSome_lookup.mpr hname)
    rw [List.filterMap_cons, hv]
    exact .cons hv (ih hnames)

theorem forall₂_iff_of_lookups {columns : List Column}
    (h : List.Forall₂ (fun c v => fields.lookup c.name = some v) columns values)
    (P : Column → Value → Prop) : List.Forall₂ P columns values ↔
      ∀ c ∈ columns, ∀ v, fields.lookup c.name = some v → P c v := by
  induction h with
  | nil => simp
  | cons hc _ ih => simp [hc, ih]

theorem exists_rowOfFields (hdistinct : (fields.map Prod.fst).Nodup) :
    (∃ row, rowOfFields schema fields = .ok row) ↔ schema.Matches fields := by
  simp only [rowOfFields_eq_ok, exists_and_left, exists_coerceRow]
  have hmatches : schema.Matches fields ↔
      (∀ name, name ∈ fields.map Prod.fst ↔ name ∈ schema.names) ∧
      ∀ c ∈ schema.columns, ∀ v, fields.lookup c.name = some v → c.Takes v := by
    simp only [Fields.lookup_eq_some hdistinct, ← Column.admits_iff]
    exact ⟨fun h => ⟨h.keys, h.values⟩, fun h => ⟨h.1, h.2⟩⟩
  rw [hmatches]
  refine and_congr_right fun hkeys => ?_
  have hlookups := forall₂_lookups fun name => (hkeys name).mpr
  rw [← forall₂_iff_of_lookups (List.forall₂_map_left_iff.mp hlookups), List.forall₂_iff_zip,
    Schema.width, eq_comm]
  exact and_congr_right fun _ => ⟨fun h _ _ hmem => h _ hmem, fun h p hmem => h hmem⟩

/-- The order of keys matters neither to a row nor to a refusal, which names them sorted. -/
theorem rowOfFields_perm (hdistinct : (fields.map Prod.fst).Nodup) (h : fields.Perm others) :
    rowOfFields schema others = rowOfFields schema fields := by
  have hlookup : ∀ name, others.lookup name = fields.lookup name := fun name =>
    Fields.lookup_perm hdistinct h
  have hunknown : (unknownNames schema fields).Perm (unknownNames schema others) :=
    (h.map Prod.fst).filter _
  have hnodup : (unknownNames schema fields).Nodup := hdistinct.filter _
  have hcheck : checkFields schema others = checkFields schema fields := by
    rw [checkFields_eq, checkFields_eq, sortNames_perm hnodup hunknown, hunknown.isEmpty_eq]
  simp only [rowOfFields, hcheck, hlookup]

/-! ## Reading a whole relation -/

theorem ofRecords_eq (schema : Schema) (records : List FieldList) :
    ofRecords schema (records.map .record) =
      records.mapM (rowOfFields schema) >>= fun rows => .ok ⟨schema, rows⟩ := by
  rw [ofRecords, List.mapM_map]
  rfl

/-- The record of a fitting row has its values under the names of the columns. -/
theorem lookup_fields (r : Relation) (h : values.length = r.schema.width) :
    List.Forall₂ (fun name v => (r.row values).fields.lookup name = some v)
      r.schema.names values := by
  have hlength : r.schema.names.length = values.length := by simp [Schema.names, h, Schema.width]
  have hdistinct : ((r.row values).fields.map Prod.fst).Nodup := by
    rw [Row.fields, row, List.map_fst_zip hlength.le]
    exact r.schema.distinct
  refine List.forall₂_iff_get.mpr ⟨hlength, fun i hi hi' => Fields.lookup_of_mem hdistinct ?_⟩
  have hzip : i < (r.schema.names.zip values).length := by simp [hi, hi']
  have hmem := List.getElem_mem hzip
  rwa [List.getElem_zip] at hmem

theorem filterMap_of_forall₂ {α β : Type} {f : α → Option β} {as : List α} {bs : List β}
    (h : List.Forall₂ (fun a b => f a = some b) as bs) : as.filterMap f = bs := by
  induction h with
  | nil => rfl
  | cons ha _ ih => rw [List.filterMap_cons, ha, ih]

theorem WellFormed.rowOfFields_fields (hr : r.WellFormed) (h : values ∈ r.rows) :
    rowOfFields r.schema (r.row values).fields = .ok values := by
  have hlength := hr.length_eq h
  have hnames : (r.row values).fields.map Prod.fst = r.schema.names :=
    List.map_fst_zip (by simp [row, Schema.names, hlength, Schema.width])
  refine rowOfFields_eq_ok.mpr ⟨fun name => by rw [hnames], ?_⟩
  rw [filterMap_of_forall₂ (lookup_fields r hlength)]
  exact coerceRow_of_fits (hr values h)

theorem WellFormed.ofRecords_toRecords (hr : r.WellFormed) :
    ofRecords r.schema r.toRecords = .ok r := by
  have hrows : r.toFields.mapM (rowOfFields r.schema) = .ok r.rows := by
    rw [toFields, List.mapM_map]
    exact Result.mapM_eq_self fun values h => hr.rowOfFields_fields h
  rw [toRecords, ofRecords_eq, hrows]
  rfl

theorem WellFormed.ofRows_rows (hr : r.WellFormed) : ofRows r.schema r.rows = .ok r := by
  rw [ofRows, Result.mapM_eq_self fun values h => coerceRow_of_fits (hr values h)]
  rfl

/-- Records and rows of a relation build it again. Records with different keys build a relation
exactly if each of them matches the schema, and the order of the keys changes nothing. -/
theorem records_build :
    (∀ r : Relation, r.WellFormed →
      ofRecords r.schema r.toRecords = .ok r ∧ ofRows r.schema r.rows = .ok r) ∧
    ∀ (schema : Schema) (records : List FieldList),
      (∀ fields ∈ records, (fields.map Prod.fst).Nodup) →
      ((∃ r, ofRecords schema (records.map .record) = .ok r) ↔
        ∀ fields ∈ records, schema.Matches fields) ∧
      ∀ others, List.Forall₂ List.Perm records others →
        ofRecords schema (others.map .record) = ofRecords schema (records.map .record) := by
  refine ⟨fun r hr => ⟨hr.ofRecords_toRecords, hr.ofRows_rows⟩, fun schema records hdistinct =>
    ⟨?_, fun others hothers => ?_⟩⟩
  · have hbuilt : (∃ r, ofRecords schema (records.map .record) = .ok r) ↔
        ∃ rows, records.mapM (rowOfFields schema) = .ok rows := by
      rw [ofRecords_eq]
      cases records.mapM (rowOfFields schema) <;> simp
    rw [hbuilt, Result.exists_mapM_iff]
    exact forall₂_congr fun fields h => exists_rowOfFields (hdistinct fields h)
  · have hperm := (List.forall₂_and_left _ _).mpr ⟨hdistinct, hothers⟩
    have hrows : records.mapM (rowOfFields schema) = others.mapM (rowOfFields schema) :=
      Result.mapM_congr (hperm.imp fun fields other h => (rowOfFields_perm h.1 h.2).symm)
    rw [ofRecords_eq, ofRecords_eq, hrows]

theorem buoy_named : "buoy" ≠ "" := by decide

theorem depth_named : "depth" ≠ "" := by decide

/-- Depths measured at two buoys, one of them without a reading. -/
def buoys : Relation :=
  ⟨⟨[⟨"buoy", .text, buoy_named⟩, ⟨"depth", .float, depth_named⟩], by decide⟩,
    [[.text "north", .float (.number (7 / 2))], [.text "south", .float (.nan 1)]]⟩

/-- The depth of a third buoy in whole units, with the depth in front and behind. -/
theorem records_build_buoys : buoys.WellFormed ∧
    ofRecords buoys.schema buoys.toRecords = .ok buoys ∧
    ofRows buoys.schema buoys.rows = .ok buoys ∧
    (∃ r, ofRecords buoys.schema [.record [("depth", .int 7), ("buoy", .null)]] = .ok r) ∧
    ofRecords buoys.schema [.record [("buoy", .null), ("depth", .int 7)]] =
      ofRecords buoys.schema [.record [("depth", .int 7), ("buoy", .null)]] := by
  have hr : buoys.WellFormed := by decide
  have hdistinct : ∀ fields ∈ ([[("depth", .int 7), ("buoy", .null)]] : List FieldList),
      (fields.map Prod.fst).Nodup := by decide
  obtain ⟨hbuilt, hperm⟩ := records_build.2 buoys.schema _ hdistinct
  have hseven : Binary64.ofInt? 7 = some (.number 7) := by decide +kernel
  have hmatches : buoys.schema.Matches [("depth", .int 7), ("buoy", .null)] := by
    refine ⟨fun name => by simp [buoys, Schema.names, or_comm], ?_⟩
    simp only [buoys, List.mem_cons, List.not_mem_nil, or_false, Prod.mk.injEq]
    rintro _ (rfl | rfl) v (⟨hname, rfl⟩ | ⟨hname, rfl⟩)
    · simp at hname
    · exact .cell (.null _)
    · exact Column.admits_iff.mpr (.inr ⟨rfl, _, _, rfl, hseven⟩)
    · simp at hname
  refine ⟨hr, (records_build.1 buoys hr).1, (records_build.1 buoys hr).2, hbuilt.mpr ?_,
    hperm [[("buoy", .null), ("depth", .int 7)]] (.cons (.swap _ _ _) .nil)⟩
  exact List.forall_mem_singleton.mpr hmatches

end Relation
end OrderedRelations
