import Mathlib
import OrderedRelations.Proofs.Digest.JsonTokens
import OrderedRelations.Proofs.Text.NameOrder

/-!
# Canonical JSON is canonical

Trees that differ only in the order of fields have one text, because fields are sorted by name at
every level. And no others share it: the text of a tree is told from whatever follows, so reading
it leaves no choice at any level.
-/

namespace OrderedRelations.JsonTree
open Text (Undigited)

/-- A tree without doubles in which no object has two fields of one name. -/
inductive Plain : JsonTree → Prop
  | null : Plain null
  | bool (b : Bool) : Plain (bool b)
  | int (n : ℤ) : Plain (int n)
  | text (s : String) : Plain (text s)
  | array {items : List JsonTree} (each : ∀ t ∈ items, Plain t) : Plain (array items)
  | object {fields : List (String × JsonTree)} (names : (fields.map Prod.fst).Nodup)
      (each : ∀ f ∈ fields, Plain f.2) : Plain (object fields)

@[simp] theorem plain_array {items : List JsonTree} : (array items).Plain ↔ ∀ t ∈ items, t.Plain := by
  refine ⟨fun h => ?_, .array⟩
  cases h
  assumption

@[simp] theorem plain_object {fields : List (String × JsonTree)} : (object fields).Plain ↔
    (fields.map Prod.fst).Nodup ∧ ∀ f ∈ fields, f.2.Plain := by
  refine ⟨fun h => ?_, fun h => .object h.1 h.2⟩
  cases h with
  | object names each => exact ⟨names, each⟩

/-- Trees that are equal but for the order of fields. -/
inductive Equivalent : JsonTree → JsonTree → Prop
  | null : Equivalent null null
  | bool (b : Bool) : Equivalent (bool b) (bool b)
  | int (n : ℤ) : Equivalent (int n) (int n)
  | float (x : Binary64) : Equivalent (float x) (float x)
  | text (s : String) : Equivalent (text s) (text s)
  | array {items items' : List JsonTree} (length : items.length = items'.length)
      (each : ∀ p ∈ items.zip items', Equivalent p.1 p.2) : Equivalent (array items) (array items')
  | object {fields fields' : List (String × JsonTree)}
      (names : (fields.map Prod.fst).Perm (fields'.map Prod.fst))
      (each : ∀ f ∈ fields, ∀ g ∈ fields', f.1 = g.1 → Equivalent f.2 g.2) :
      Equivalent (object fields) (object fields')

/-! Sorted fields. -/

def byName (fields : List (String × JsonTree)) : List (String × JsonTree) :=
  fields.mergeSort fun f g => !Text.less g.1 f.1

def fieldText (f : String × JsonTree) : List Char := writeField (f.1, f.2.write)

variable {fields fields' : List (String × JsonTree)}

theorem byName_perm (fields : List (String × JsonTree)) : (byName fields).Perm fields :=
  List.mergeSort_perm _ _

theorem writeAll_eq (items : List JsonTree) : writeAll items = items.map write := by
  induction items with
  | nil => rfl
  | cons t rest ih => rw [writeAll, ih, List.map_cons]

theorem writeFields_eq (fields : List (String × JsonTree)) :
    writeFields fields = fields.map fun f => (f.1, f.2.write) := by
  induction fields with
  | nil => rfl
  | cons f rest ih => rw [writeFields, ih, List.map_cons]

theorem write_array (items : List JsonTree) :
    (array items).write = '[' :: (commaSeparated (items.map write) ++ [']']) := by
  rw [write, writeAll_eq]

theorem write_object (fields : List (String × JsonTree)) : (object fields).write =
    Char.ofNat 0x7B :: (commaSeparated ((byName fields).map fieldText) ++ [Char.ofNat 0x7D]) := by
  have hsorted : sortFields (writeFields fields) =
      (byName fields).map fun f => (f.1, f.2.write) := by
    rw [writeFields_eq, sortFields, byName]
    refine (List.map_mergeSort (f := fun f : String × JsonTree => (f.1, f.2.write)) ?_).symm
    exact fun _ _ _ _ => rfl
  rw [write, hsorted, List.map_map]
  rfl

/-! One text for equivalent trees. -/

/-- What tells trees of different kinds apart in the first character of their text. -/
def lead : JsonTree → Char
  | null => 'n'
  | bool _ => 't'
  | int _ => '0'
  | float _ => '.'
  | text _ => '"'
  | array _ => '['
  | object _ => Char.ofNat 0x7B

def leadOf (c : Char) : Char :=
  if c.isDigit ∨ c = '-' then '0' else if c = 'f' then 't' else c

theorem Plain.lead_eq {t : JsonTree} (ht : t.Plain) (rest : List Char) :
    (t.write ++ rest).head?.map leadOf = some t.lead := by
  cases ht with
  | null => rfl
  | bool b => cases b <;> rfl
  | int n =>
    rw [write, Text.toList_toString_int]
    split
    · rfl
    · obtain ⟨c, cs, hdigits⟩ := List.exists_cons_of_ne_nil (Text.padded_ne_nil 0 n.natAbs)
      have hc : c.isDigit = true := Text.isDigit_of_mem_padded (hdigits ▸ List.mem_cons_self)
      simp [hdigits, leadOf, hc, lead]
  | text s => rfl
  | array each =>
    rw [write_array]
    rfl
  | object names each =>
    rw [write_object]
    rfl

theorem Plain.lead_inj {t u : JsonTree} (ht : t.Plain) (hu : u.Plain) {rest rest' : List Char}
    (h : t.write ++ rest = u.write ++ rest') : t.lead = u.lead := by
  have hleads := ht.lead_eq rest
  rw [h, hu.lead_eq rest'] at hleads
  exact (Option.some.inj hleads).symm

/-- No tree begins with the end of an array. -/
theorem Plain.write_append_ne {t : JsonTree} (ht : t.Plain) (tail rest : List Char) :
    t.write ++ tail ≠ ']' :: rest := by
  intro h
  have hlead := ht.lead_eq tail
  rw [h] at hlead
  cases ht <;> simp [lead, leadOf] at hlead

theorem fieldText_append (f : String × JsonTree) (tail : List Char) :
    fieldText f ++ tail = quote f.1 ++ ':' :: (f.2.write ++ tail) := by
  simp [fieldText, writeField]

/-- No field begins with the end of an object. -/
theorem fieldText_append_ne (f : String × JsonTree) (tail rest : List Char) :
    fieldText f ++ tail ≠ Char.ofNat 0x7D :: rest := by
  intro h
  rw [fieldText_append] at h
  exact absurd (List.cons.inj h).1 (by decide)

/-- A field is told from what follows where its tree is. -/
theorem fieldText_append_inj {f g : String × JsonTree} {tail tail' : List Char}
    (htree : f.2.write ++ tail = g.2.write ++ tail' → Equivalent f.2 g.2 ∧ tail = tail')
    (h : fieldText f ++ tail = fieldText g ++ tail') :
    (f.1 = g.1 ∧ Equivalent f.2 g.2) ∧ tail = tail' := by
  rw [fieldText_append, fieldText_append] at h
  obtain ⟨hname, hvalue⟩ := quote_append_inj h
  obtain ⟨hequiv, htails⟩ := htree (List.cons.inj hvalue).2
  exact ⟨⟨hname, hequiv⟩, htails⟩

/-- Fields read one by one in the order of their names are those of an equivalent object. -/
theorem equivalent_of_byName (hnames : (fields'.map Prod.fst).Nodup)
    (h : List.Forall₂ (fun f g => f.1 = g.1 ∧ Equivalent f.2 g.2) (byName fields) (byName fields')) :
    Equivalent (object fields) (object fields') := by
  have hsorted : (byName fields).map Prod.fst = (byName fields').map Prod.fst := by
    rw [← List.forall₂_eq_eq_eq, List.forall₂_map_left_iff, List.forall₂_map_right_iff]
    exact h.imp fun _ _ hfg => hfg.1
  refine .object ?_ fun f hf g hg hname => ?_
  · have hperm := (byName_perm fields).symm.map Prod.fst
    rw [hsorted] at hperm
    exact hperm.trans ((byName_perm fields').map Prod.fst)
  · -- the field read beside `f` has its name, so it is `g`
    obtain ⟨i, hi, rfl⟩ := List.getElem_of_mem ((byName_perm fields).mem_iff.mpr hf)
    have hi' : i < (byName fields').length := h.length_eq ▸ hi
    obtain ⟨hname', hequiv⟩ := h.get hi hi'
    have hmem := (byName_perm fields').mem_iff.mp (List.getElem_mem hi')
    have hg' : (byName fields')[i] = g :=
      List.inj_on_of_nodup_map hnames hmem hg (hname'.symm.trans hname)
    exact hg' ▸ hequiv

/-- The text of a plain tree shows its own end, and the tree but for the order of fields. -/
theorem Plain.equivalent_of_write {t u : JsonTree} (ht : t.Plain) (hu : u.Plain)
    {rest rest' : List Char} (hrest : Undigited rest) (hrest' : Undigited rest')
    (h : t.write ++ rest = u.write ++ rest') : t.Equivalent u ∧ rest = rest' := by
  induction ht generalizing u rest rest' with
  | null =>
    have hlead := Plain.null.lead_inj hu h
    cases hu <;> simp [lead] at hlead
    exact ⟨.null, List.append_cancel_left h⟩
  | bool b =>
    have hlead := (Plain.bool b).lead_inj hu h
    cases hu <;> simp [lead] at hlead
    rename_i c
    obtain rfl : b = c := by cases b <;> cases c <;> simp [write] at h ⊢
    exact ⟨.bool b, List.append_cancel_left h⟩
  | int m =>
    have hlead := (Plain.int m).lead_inj hu h
    cases hu <;> simp [lead] at hlead
    obtain ⟨rfl, heq⟩ := Text.toString_append_inj hrest hrest' h
    exact ⟨.int m, heq⟩
  | text s =>
    have hlead := (Plain.text s).lead_inj hu h
    cases hu <;> simp [lead] at hlead
    obtain ⟨rfl, heq⟩ := quote_append_inj h
    exact ⟨.text s, heq⟩
  | @array items each ih =>
    have hlead := (Plain.array each).lead_inj hu h
    cases hu <;> simp [lead] at hlead
    rename_i items' each'
    have hlists : commaSeparated (items.map write) ++ ']' :: rest =
        commaSeparated (items'.map write) ++ ']' :: rest' := by simpa [write_array] using h
    have hopen : ∀ t ∈ items ++ items', ∀ tail rest, t.write ++ tail ≠ ']' :: rest := by
      intro t ht tail rest
      exact ((List.mem_append.mp ht).elim (each t) (each' t)).write_append_ne tail rest
    obtain ⟨hitems, heq⟩ := commaSeparated_append_inj (by decide) rfl hopen
      (fun t ht u hu _ _ => ih t ht (each' u hu)) hlists
    rw [List.forall₂_iff_zip] at hitems
    exact ⟨.array hitems.1 fun _ hp => hitems.2 hp, heq⟩
  | @object fields names each ih =>
    have hlead := (Plain.object names each).lead_inj hu h
    cases hu <;> simp [lead] at hlead
    rename_i fields' names' each'
    have hlists : commaSeparated ((byName fields).map fieldText) ++ Char.ofNat 0x7D :: rest =
        commaSeparated ((byName fields').map fieldText) ++ Char.ofNat 0x7D :: rest' := by
      simpa [write_object] using h
    have hfield : ∀ f ∈ byName fields, ∀ g ∈ byName fields', ∀ tail tail', Undigited tail →
        Undigited tail' → fieldText f ++ tail = fieldText g ++ tail' →
        (f.1 = g.1 ∧ Equivalent f.2 g.2) ∧ tail = tail' := by
      intro f hf g hg tail tail' htail htail'
      exact fieldText_append_inj (ih f ((byName_perm fields).mem_iff.mp hf)
        (each' g ((byName_perm fields').mem_iff.mp hg)) htail htail')
    obtain ⟨hall, heq⟩ := commaSeparated_append_inj (by decide) (by decide)
      (fun f _ => fieldText_append_ne f) hfield hlists
    exact ⟨equivalent_of_byName names' hall, heq⟩

theorem Plain.equivalent_of_canonical {t u : JsonTree} (ht : t.Plain) (hu : u.Plain)
    (h : t.canonical = u.canonical) : t.Equivalent u := by
  have hwrite : t.write ++ [] = u.write ++ [] := by
    simpa using String.ofList_injective h
  exact (ht.equivalent_of_write hu Text.undigited_nil Text.undigited_nil hwrite).1

end OrderedRelations.JsonTree
