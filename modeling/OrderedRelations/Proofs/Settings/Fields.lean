import OrderedRelations.Proofs.Result
import OrderedRelations.Settings.Basic

/-!
# Settings field by field

A mapping is applied to settings one field after the other, with a check of all settings after
each of them. From settings that are valid no field comes to depend on another one: what a mapping
says about a field is what the field holds in the end, and where it says nothing the field stays.
-/

namespace OrderedRelations.Settings

variable {s t : Settings} {field other : Field} {mapping : FieldList} {failure : Failure}

/-! ## Contents -/

def get (s : Settings) : (field : Field) → field.Content
  | .maxDepth => s.maxDepth
  | .maxWorkers => s.maxWorkers
  | .gapInclusive => s.gapInclusive
  | .groupColumn => s.groupColumn
  | .strictTypes => s.strictTypes

@[simp] theorem get_set_self (s : Settings) (field : Field) (content : field.Content) :
    (s.set field content).get field = content := by
  cases field <;> rfl

theorem get_set_of_ne (h : other ≠ field) (content : field.Content) :
    (s.set field content).get other = s.get other := by
  cases field <;> cases other <;> first | rfl | exact absurd rfl h

@[simp] theorem set_get (s : Settings) (field : Field) : s.set field (s.get field) = s := by
  cases field <;> rfl

theorem ext_get (h : ∀ field, s.get field = t.get field) : s = t := by
  cases s
  cases t
  exact congr (congr (congr (congr (congrArg mk (h .maxDepth)) (h .maxWorkers))
    (h .gapInclusive)) (h .groupColumn)) (h .strictTypes)

theorem Field.mem_all (field : Field) : field ∈ all := by
  cases field <;> decide

theorem Field.key_injective : Function.Injective key := by
  intro field other h
  cases field <;> cases other <;> first | rfl | exact absurd h (by decide)

/-! ## Validity -/

/-- What valid settings hold in a field. -/
def Field.Allows : (field : Field) → field.Content → Prop
  | maxDepth, n => 0 ≤ n
  | maxWorkers, n => 1 ≤ n
  | gapInclusive, _ => True
  | groupColumn, name => name ≠ ""
  | strictTypes, _ => True

theorem valid_iff : s.Valid ↔ ∀ field : Field, field.Allows (s.get field) := by
  constructor
  · rintro ⟨hdepth, hworkers, hcolumn⟩ field
    cases field with
    | maxDepth => exact hdepth
    | maxWorkers => exact hworkers
    | gapInclusive => trivial
    | groupColumn => exact hcolumn
    | strictTypes => trivial
  · intro h
    exact ⟨h .maxDepth, h .maxWorkers, h .groupColumn⟩

theorem Valid.set_iff (hs : s.Valid) {content : field.Content} :
    (s.set field content).Valid ↔ field.Allows content := by
  rw [valid_iff] at hs ⊢
  constructor
  · intro h
    simpa using h field
  · intro h other
    by_cases heq : other = field
    · subst heq
      simpa using h
    · rw [get_set_of_ne heq]
      exact hs other

theorem defaults_valid : defaults.Valid := ⟨by decide, by decide, by decide⟩

theorem check_eq_ok : check s = .ok t ↔ s.Valid ∧ s = t := by
  unfold check Valid
  split_ifs with hdepth hworkers hcolumn
  · simp [Int.not_le.mpr hdepth]
  · simp [Int.not_le.mpr hworkers]
  · simp [hcolumn]
  · simp [Int.not_lt.mp hdepth, Int.not_lt.mp hworkers, hcolumn]

theorem exists_of_check_eq_error (h : check s = .error failure) :
    ∃ fault, failure = .settings fault := by
  unfold check at h
  split_ifs at h <;> exact ⟨_, (Except.error.inj h).symm⟩

/-! ## One field -/

/-- What a mapping says about a field, if it says anything. -/
def Field.said (mapping : FieldList) (field : Field) : Option (Result field.Content) :=
  (mapping.lookup field.key).bind field.read

/-- A content that a field may hold after a mapping has been applied: what the mapping says, or
else what the field held before. -/
def Field.Settled (mapping : FieldList) (field : Field) (before after : field.Content) : Prop :=
  match field.said mapping with
  | some content => content = .ok after ∧ field.Allows after
  | none => after = before

theorem Field.Settled.allows {before after : field.Content} (h : field.Settled mapping before after)
    (hbefore : field.Allows before) : field.Allows after := by
  unfold Settled at h
  split at h
  · exact h.2
  · exact h ▸ hbefore

theorem applyField_eq_ok (hs : s.Valid) :
    applyField mapping s field = .ok t ↔
      ∃ content, field.Settled mapping (s.get field) content ∧ s.set field content = t := by
  have hsaid : (mapping.lookup field.key).bind field.read = field.said mapping := rfl
  unfold applyField Field.Settled
  rw [hsaid]
  cases field.said mapping with
  | some read =>
    simp only [Result.bind_eq_ok, check_eq_ok, hs.set_iff, and_assoc]
  | none => simp

/-! ## All fields -/

/-- Applying what a mapping says about some fields settles these and leaves the others. -/
theorem applyFields_eq_ok {fields : List Field} (hs : s.Valid) (hnodup : fields.Nodup) :
    fields.foldlM (applyField mapping) s = .ok t ↔
      (∀ field ∈ fields, field.Settled mapping (s.get field) (t.get field)) ∧
        ∀ field, field ∉ fields → t.get field = s.get field := by
  induction fields generalizing s with
  | nil =>
    constructor
    · intro h
      cases h
      simp
    · rintro ⟨-, hothers⟩
      exact congrArg Except.ok (ext_get fun field => (hothers field (by simp)).symm)
  | cons first rest ih =>
    obtain ⟨hfirst, hrest⟩ := List.nodup_cons.mp hnodup
    rw [List.foldlM_cons, Result.bind_eq_ok]
    constructor
    · rintro ⟨u, hu, ht⟩
      -- the settings in between are valid again, so that the rest starts as the whole did
      obtain ⟨content, hsettled, rfl⟩ := (applyField_eq_ok hs).mp hu
      have hallows := hsettled.allows (valid_iff.mp hs first)
      obtain ⟨hdone, hothers⟩ := (ih (hs.set_iff.mpr hallows) hrest).mp ht
      have htfirst : t.get first = content := by simpa using hothers first hfirst
      refine ⟨List.forall_mem_cons.mpr ⟨htfirst ▸ hsettled, fun field hmem => ?_⟩,
        fun field hmem => ?_⟩
      · have hne : field ≠ first := fun heq => hfirst (heq ▸ hmem)
        simpa only [get_set_of_ne hne] using hdone field hmem
      · obtain ⟨hne, hmem⟩ := not_or.mp (mt List.mem_cons.mpr hmem)
        rw [hothers field hmem, get_set_of_ne hne]
    · rintro ⟨hdone, hothers⟩
      have hsettled := hdone first (by simp)
      have hallows := hsettled.allows (valid_iff.mp hs first)
      refine ⟨s.set first (t.get first), (applyField_eq_ok hs).mpr ⟨_, hsettled, rfl⟩,
        (ih (hs.set_iff.mpr hallows) hrest).mpr ⟨fun field hmem => ?_, fun field hmem => ?_⟩⟩
      · have hne : field ≠ first := fun heq => hfirst (heq ▸ hmem)
        simpa only [get_set_of_ne hne] using hdone field (by simp [hmem])
      · by_cases hne : field = first
        · subst hne
          simp
        · rw [get_set_of_ne hne]
          exact hothers field (by simp [hne, hmem])

/-- Applying a mapping to valid settings settles every field by itself. -/
theorem apply_eq_ok (hs : s.Valid) :
    s.apply mapping = .ok t ↔
      ∀ field : Field, field.Settled mapping (s.get field) (t.get field) := by
  rw [apply, applyFields_eq_ok hs (by decide)]
  constructor
  · rintro ⟨hdone, -⟩ field
    exact hdone field field.mem_all
  · intro h
    exact ⟨fun field _ => h field, fun field hmem => absurd field.mem_all hmem⟩

theorem Valid.of_apply (hs : s.Valid) (h : s.apply mapping = .ok t) : t.Valid :=
  valid_iff.mpr fun field => ((apply_eq_ok hs).mp h field).allows (valid_iff.mp hs field)

@[simp] theorem apply_nil (hs : s.Valid) : s.apply [] = .ok s :=
  (apply_eq_ok hs).mpr fun _ => rfl

/-! ## The environment -/

theorem lookup_texts {fields : List Field} {text? : Field → Option String}
    (h : field ∉ fields → text? field = none) :
    (fields.filterMap fun other =>
      (text? other).map fun text => (other.key, Value.text text)).lookup field.key =
        (text? field).map .text := by
  induction fields with
  | nil => simp [h]
  | cons first rest ih =>
    by_cases heq : field = first
    · subst heq
      cases htext : text? field with
      | none => simpa [htext] using ih fun _ => htext
      | some text => simp [htext]
    · have hrest := ih fun hmem => h (by simp [heq, hmem])
      have hkey : (field.key == first.key) = false :=
        beq_false_of_ne fun hkey => heq (Field.key_injective hkey)
      cases htext : text? first with
      | none => simpa [htext] using hrest
      | some text => simpa [htext, List.lookup_cons, hkey] using hrest

/-- What the environment says by the key of a field is the text of the field's variable. -/
theorem lookup_environmentMapping (environment : List (String × String)) (stem : String)
    (field : Field) :
    (environmentMapping environment stem).lookup field.key =
      (field.environmentText? environment stem).map .text :=
  lookup_texts fun hmem => absurd field.mem_all hmem

end OrderedRelations.Settings
