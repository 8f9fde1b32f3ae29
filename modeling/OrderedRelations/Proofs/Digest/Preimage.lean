import OrderedRelations.Digest.Fingerprint
import OrderedRelations.Proofs.Calendar.IsoText
import OrderedRelations.Proofs.Digest.Canonical
import OrderedRelations.Proofs.Relation.Cell

/-!
# What a fingerprint is taken of

The text that a fingerprint digests tells relations without doubles apart: names, types and order of
the columns, and the rows cell by cell, moments with their own clock and offset. A date or a moment
is an object with one field, so no text is taken for one.
-/

namespace OrderedRelations

/-- A cell of a column that does not hold doubles. -/
inductive Value.Exact : Value → Prop
  | null : Exact null
  | bool (b : Bool) : Exact (bool b)
  | int (n : ℤ) : Exact (int n)
  | text (s : String) : Exact (text s)
  | date (d : Date) : Exact (date d)
  | datetime (t : DateTime) : Exact (datetime t)

theorem Value.exact_of_conforms {v : Value} {type : ColumnType} (htype : type ≠ .float)
    (h : v.conforms type = true) : v.Exact := by
  cases v <;> simp [conforms] at h
  case float => exact absurd h htype
  all_goals constructor

/-- No column holds doubles. -/
def Relation.FloatFree (r : Relation) : Prop := ∀ c ∈ r.schema.columns, c.type ≠ .float

instance (r : Relation) : Decidable r.FloatFree :=
  inferInstanceAs (Decidable (∀ c ∈ r.schema.columns, c.type ≠ .float))

theorem Relation.WellFormed.exact {r : Relation} (hr : r.WellFormed) (hf : r.FloatFree) :
    ∀ row ∈ r.rows, ∀ v ∈ row, v.Exact := by
  intro row hrow v hv
  obtain ⟨c, hc, hconforms⟩ := hr.exists_column hrow hv
  exact Value.exact_of_conforms (hf c hc) hconforms

namespace Fingerprint
open JsonTree (Equivalent Plain)

/-- The text of one cell. -/
def cellText (v : Value) : Result String := (JsonTree.ofValue (tagged v)).map JsonTree.canonical

/-- The tree of one cell. -/
def cellTree : Value → JsonTree
  | .bool b => .bool b
  | .int n => .int n
  | .text s => .text s
  | .date d => .object [("$date", .text d.iso)]
  | .datetime t => .object [("$datetime", .text (t.iso 'T'))]
  | _ => .null

def columnTree (c : Column) : JsonTree := .array [.text c.name, .text (Labelled.label c.type)]

def rowTree (row : List Value) : JsonTree := .array (row.map cellTree)

def relationTree (r : Relation) : JsonTree :=
  .object [("columns", .array (r.schema.columns.map columnTree)),
    ("rows", .array (r.rows.map rowTree))]

variable {r s : Relation} {v w : Value} {row : List Value}

/-! Trees of relations. -/

theorem ofValue_tagged (h : v.Exact) : JsonTree.ofValue (tagged v) = .ok (cellTree v) := by
  cases h <;> rfl

theorem cellText_eq (h : v.Exact) : cellText v = .ok (cellTree v).canonical := by
  rw [cellText, ofValue_tagged h, Result.map_ok]

theorem ofValues_tagged (h : ∀ v ∈ row, v.Exact) :
    JsonTree.ofValues (row.map tagged) = .ok (row.map cellTree) := by
  induction row with
  | nil => rfl
  | cons v rest ih =>
    obtain ⟨hv, hrest⟩ := List.forall_mem_cons.mp h
    rw [List.map_cons, JsonTree.ofValues, ofValue_tagged hv, ih hrest]
    rfl

theorem preimage_eq (h : ∀ row ∈ r.rows, ∀ v ∈ row, v.Exact) :
    preimage (columnLabels r.schema) r.rows = .ok (relationTree r).canonical := by
  have hrows : (r.rows.mapM fun row => JsonTree.ofValues (row.map tagged)) =
      .ok (r.rows.map fun row => row.map cellTree) :=
    Result.mapM_eq_map fun row hrow => ofValues_tagged (h row hrow)
  rw [preimage, tree, hrows, Result.ok_bind, Result.pure_eq_ok, Result.map_ok, List.map_map,
    columnLabels, List.map_map]
  rfl

theorem plain_cellTree (v : Value) : (cellTree v).Plain := by
  cases v <;> simp [cellTree, Plain.null, Plain.bool, Plain.int, Plain.text]

theorem plain_relationTree (r : Relation) : (relationTree r).Plain := by
  have hcolumns : (JsonTree.array (r.schema.columns.map columnTree)).Plain := by
    simp [columnTree, Plain.text]
  have hrows : (JsonTree.array (r.rows.map rowTree)).Plain := by
    simp [rowTree, plain_cellTree]
  simp [relationTree, hcolumns, hrows]

/-! Relations of equivalent trees. -/

theorem eq_of_equivalent_text {x y : String} (h : Equivalent (.text x) (.text y)) : x = y := by
  cases h
  rfl

/-- Arrays are equivalent item by item. -/
theorem eq_of_equivalent_array {α : Type} {f : α → JsonTree} {as bs : List α}
    (hf : ∀ a ∈ as, ∀ b ∈ bs, Equivalent (f a) (f b) → a = b)
    (h : Equivalent (.array (as.map f)) (.array (bs.map f))) : as = bs := by
  cases h with
  | array length each =>
    refine List.ext_getElem (by simpa using length) fun i hi hi' => ?_
    refine hf _ (List.getElem_mem hi) _ (List.getElem_mem hi') (each (f as[i], f bs[i]) ?_)
    rw [List.mem_iff_getElem]
    exact ⟨i, by simp [hi, hi'], by simp⟩

/-- A field is equivalent to the field of its name only. -/
theorem eq_of_equivalent_object {name name' : String} {t u : JsonTree}
    (h : Equivalent (.object [(name, t)]) (.object [(name', u)])) :
    name = name' ∧ Equivalent t u := by
  cases h with
  | object names each =>
    have hname : name = name' := by simpa using names
    exact ⟨hname, each (name, t) List.mem_cons_self (name', u) List.mem_cons_self hname⟩

/-- Cells with equivalent trees are the same, in the same representation. -/
theorem eq_of_equivalent_cellTree (hv : v.Exact) (hw : w.Exact)
    (h : Equivalent (cellTree v) (cellTree w)) : v = w := by
  cases hv with
  | date d =>
    cases hw with
    | date e => rw [Date.iso_injective (eq_of_equivalent_text (eq_of_equivalent_object h).2)]
    | datetime t => exact absurd (eq_of_equivalent_object h).1 (by decide)
    | _ => cases h
  | datetime t =>
    cases hw with
    | datetime u =>
      rw [DateTime.iso_injective rfl (eq_of_equivalent_text (eq_of_equivalent_object h).2)]
    | date d => exact absurd (eq_of_equivalent_object h).1 (by decide)
    | _ => cases h
  | _ => cases hw <;> first | cases h; rfl | cases h

theorem label_injective : Function.Injective (Labelled.label : ColumnType → String) := by
  intro a b h
  cases a <;> cases b <;> first | rfl | exact absurd h (by decide)

theorem eq_of_equivalent_columnTree {c d : Column} (h : Equivalent (columnTree c) (columnTree d)) :
    c = d := by
  have hlabels : [c.name, Labelled.label c.type] = [d.name, Labelled.label d.type] :=
    eq_of_equivalent_array (f := JsonTree.text) (fun _ _ _ _ => eq_of_equivalent_text) h
  cases c
  cases d
  simp only [List.cons.injEq, and_true] at hlabels
  cases hlabels.1
  cases label_injective hlabels.2
  rfl

theorem eq_of_equivalent_relationTree (hr : ∀ row ∈ r.rows, ∀ v ∈ row, v.Exact)
    (hs : ∀ row ∈ s.rows, ∀ v ∈ row, v.Exact) (h : Equivalent (relationTree r) (relationTree s)) :
    r = s := by
  obtain ⟨⟨columns, distinct⟩, rows⟩ := r
  obtain ⟨⟨columns', distinct'⟩, rows'⟩ := s
  cases h with
  | object names each =>
    have hcolumns : columns = columns' :=
      eq_of_equivalent_array (fun _ _ _ _ => eq_of_equivalent_columnTree)
        (each _ List.mem_cons_self _ List.mem_cons_self rfl)
    have hrows : rows = rows' := by
      refine eq_of_equivalent_array (fun row hrow row' hrow' heq => ?_)
        (each ("rows", .array (rows.map rowTree)) (List.mem_cons_of_mem _ List.mem_cons_self)
          ("rows", .array (rows'.map rowTree)) (List.mem_cons_of_mem _ List.mem_cons_self) rfl)
      exact eq_of_equivalent_array
        (fun v hv w hw => eq_of_equivalent_cellTree (hr row hrow v hv) (hs row' hrow' w hw)) heq
    cases hcolumns
    cases hrows
    rfl

theorem cellText_ne (hv : v.Exact) (hw : w.Exact) (h : v ≠ w) :
    (cellTree v).canonical ≠ (cellTree w).canonical := fun heq =>
  h (eq_of_equivalent_cellTree hv hw
    ((plain_cellTree v).equivalent_of_canonical (plain_cellTree w) heq))

/-- Fingerprints of relations without doubles are taken of different texts wherever the relations
differ in anything: a name, a type or the order of columns, a cell, the order of rows, or the clock
and offset that a moment is written with. A date, a moment and a text are never taken for one
another. -/
theorem preimages_eq_iff (hr : r.WellFormed) (hs : s.WellFormed) (hfr : r.FloatFree)
    (hfs : s.FloatFree) :
    (∃ p q, preimage (columnLabels r.schema) r.rows = .ok p ∧
      preimage (columnLabels s.schema) s.rows = .ok q ∧ (p = q ↔ r = s)) ∧
    ∀ (d : Date) (t : DateTime) (x : String), ∃ a b c, cellText (.date d) = .ok a ∧
      cellText (.datetime t) = .ok b ∧ cellText (.text x) = .ok c ∧ a ≠ b ∧ a ≠ c ∧ b ≠ c := by
  have hexact := hr.exact hfr
  have hexact' := hs.exact hfs
  refine ⟨⟨_, _, preimage_eq hexact, preimage_eq hexact', fun h => ?_, fun h => by rw [h]⟩, ?_⟩
  · exact eq_of_equivalent_relationTree hexact hexact'
      ((plain_relationTree r).equivalent_of_canonical (plain_relationTree s) h)
  · intro d t x
    exact ⟨_, _, _, cellText_eq (.date d), cellText_eq (.datetime t), cellText_eq (.text x),
      cellText_ne (.date d) (.datetime t) nofun, cellText_ne (.date d) (.text x) nofun,
      cellText_ne (.datetime t) (.text x) nofun⟩

/-- A visit at a moment, with a note that reads like the form that dates take. -/
def visitAt (t : DateTime) : Relation :=
  ⟨⟨[⟨"note", .text, by decide⟩, ⟨"at", .datetime, by decide⟩], by decide⟩,
    [[.text "\x7b\"$date\":\"2024-02-29\"\x7d", .datetime t], [.null, .null]]⟩

def tenAtUtc : DateTime := ⟨⟨2024, 2, 29, by decide⟩, 36000000000, by decide, some 0⟩

/-- The same moment, written one hour east of it. -/
def elevenAhead : DateTime := ⟨⟨2024, 2, 29, by decide⟩, 39600000000, by decide, some 3600000000⟩

theorem preimages_eq_iff_visitAt :
    ((visitAt tenAtUtc).WellFormed ∧ (visitAt elevenAhead).WellFormed ∧
      (visitAt tenAtUtc).FloatFree ∧ (visitAt elevenAhead).FloatFree) ∧
    ∃ p q, preimage (columnLabels (visitAt tenAtUtc).schema) (visitAt tenAtUtc).rows = .ok p ∧
      preimage (columnLabels (visitAt elevenAhead).schema) (visitAt elevenAhead).rows = .ok q ∧
      p ≠ q := by
  have hten : (visitAt tenAtUtc).WellFormed := by decide
  have heleven : (visitAt elevenAhead).WellFormed := by decide
  have hexact : (visitAt tenAtUtc).FloatFree := by decide
  have hexact' : (visitAt elevenAhead).FloatFree := by decide
  obtain ⟨⟨p, q, hp, hq, hpq⟩, -⟩ := preimages_eq_iff hten heleven hexact hexact'
  refine ⟨⟨hten, heleven, hexact, hexact'⟩, p, q, hp, hq, fun heq => ?_⟩
  have hmoments : tenAtUtc = elevenAhead := by simpa [visitAt] using hpq.mp heq
  exact absurd hmoments (by decide)

end Fingerprint
end OrderedRelations
