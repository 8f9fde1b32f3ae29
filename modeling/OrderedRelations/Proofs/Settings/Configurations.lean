import OrderedRelations.Proofs.Settings.Fields
import OrderedRelations.Settings.Files

/-!
# The configuration that counts

Files are looked at in order, up to the first one whose configuration is not empty. A file is
passed over where it is not there or its configuration is empty; the settings are then those of
the configuration that the looking ended with, applied to the defaults.
-/

namespace OrderedRelations.Settings

variable {sources : SettingsSources} {files : List (String × String)} {first file text : String}
  {rest names : List String} {document : FieldList} {found configuration : Option Value}
  {failure : Failure}

/-- What a document says under the name of a file. -/
def configurationIn (sources : SettingsSources) (file : String) (document : FieldList) :
    Option Value :=
  select sources (fileName (normalPath file)) document

/-- A file behind which the next one is looked at. -/
def Passed (sources : SettingsSources) (files : List (String × String)) (file : String) : Prop :=
  ∀ text, files.lookup (normalPath file) = some text →
    ∃ document, readDocument text = .ok document ∧
      nonempty (configurationIn sources file document) = false

/-- A file of a list that is there and looked at, with its text. -/
inductive LookedAt (sources : SettingsSources) (files : List (String × String)) :
    List String → String → String → Prop
  | here {file text : String} {rest : List String}
      (h : files.lookup (normalPath file) = some text) :
      LookedAt sources files (file :: rest) file text
  | later {first file text : String} {rest : List String} (hfirst : Passed sources files first)
      (h : LookedAt sources files rest file text) :
      LookedAt sources files (first :: rest) file text

/-! ## Looking -/

theorem readDocument_eq_ok :
    readDocument text = .ok document ↔ Toml.parse Text.digitLimit text = .ok document := by
  unfold readDocument
  split
  next heq => simp [heq]
  next heq => simp [heq]
  next heq => simp [heq]

theorem choose_of_absent (h : files.lookup (normalPath file) = none) :
    choose sources files found (file :: rest) = choose sources files found rest := by
  rw [choose, h]

theorem choose_of_present (h : files.lookup (normalPath file) = some text) :
    choose sources files found (file :: rest) = (do
      let document ← readDocument text
      let configuration := configurationIn sources file document
      if nonempty configuration then .ok configuration
      else choose sources files configuration rest) := by
  rw [choose, h]
  rfl

theorem passed_of_absent (h : files.lookup (normalPath file) = none) :
    Passed sources files file := fun _ htext => nomatch h.symm.trans htext

@[simp] theorem nonempty_record (fields : FieldList) :
    nonempty (some (.record fields)) = !fields.isEmpty := rfl

/-- Behind a file that is passed the looking goes on, with nothing found unless it was before. -/
theorem Passed.choose_cons (h : Passed sources files first) (hfound : nonempty found = false) :
    ∃ next, nonempty next = false ∧
      choose sources files found (first :: rest) = choose sources files next rest := by
  cases hfile : files.lookup (normalPath first) with
  | none => exact ⟨found, hfound, choose_of_absent hfile⟩
  | some text =>
    obtain ⟨document, hread, hempty⟩ := h text hfile
    refine ⟨configurationIn sources first document, hempty, ?_⟩
    simp [choose_of_present hfile, hread, hempty]

theorem LookedAt.choose_eq_error (h : LookedAt sources files names file text)
    (hread : readDocument text = .error failure) (hfound : nonempty found = false) :
    choose sources files found names = .error failure := by
  induction h generalizing found with
  | here hfile => simp [choose_of_present hfile, hread]
  | later hfirst _ ih =>
    obtain ⟨next, hnext, heq⟩ := hfirst.choose_cons hfound
    exact heq.trans (ih hread hnext)

theorem LookedAt.choose_eq_ok (h : LookedAt sources files names file text)
    (hread : readDocument text = .ok document)
    (hfull : nonempty (configurationIn sources file document) = true)
    (hfound : nonempty found = false) :
    choose sources files found names = .ok (configurationIn sources file document) := by
  induction h generalizing found with
  | here hfile => simp [choose_of_present hfile, hread, hfull]
  | later hfirst _ ih =>
    obtain ⟨next, hnext, heq⟩ := hfirst.choose_cons hfound
    exact heq.trans (ih hread hfull hnext)

/-- How the looking ends: at a document that cannot be read, at a configuration that is not empty,
or behind all files. -/
inductive Looked (sources : SettingsSources) (files : List (String × String))
    (names : List String) : Result (Option Value) → Prop
  | unreadable {file text : String} {failure : Failure}
      (h : LookedAt sources files names file text) (hread : readDocument text = .error failure) :
      Looked sources files names (.error failure)
  | found {file text : String} {document : FieldList}
      (h : LookedAt sources files names file text) (hread : readDocument text = .ok document)
      (hfull : nonempty (configurationIn sources file document) = true) :
      Looked sources files names (.ok (configurationIn sources file document))
  | nothing {last : Option Value} (h : ∀ file ∈ names, Passed sources files file)
      (hlast : nonempty last = false) : Looked sources files names (.ok last)

theorem Looked.later {outcome : Result (Option Value)} (hfirst : Passed sources files first)
    (h : Looked sources files rest outcome) : Looked sources files (first :: rest) outcome := by
  cases h with
  | unreadable h hread => exact .unreadable (.later hfirst h) hread
  | found h hread hfull => exact .found (.later hfirst h) hread hfull
  | nothing h hlast => exact .nothing (List.forall_mem_cons.mpr ⟨hfirst, h⟩) hlast

theorem choose_looked (sources : SettingsSources) (files : List (String × String))
    (names : List String) (hfound : nonempty found = false) :
    Looked sources files names (choose sources files found names) := by
  induction names generalizing found with
  | nil => exact .nothing (by simp) hfound
  | cons first rest ih =>
    cases hfile : files.lookup (normalPath first) with
    | none =>
      rw [choose_of_absent hfile]
      exact (ih hfound).later (passed_of_absent hfile)
    | some text =>
      rw [choose_of_present hfile]
      cases hread : readDocument text with
      | error failure => exact .unreadable (.here hfile) hread
      | ok document =>
        by_cases hfull : nonempty (configurationIn sources first document) = true
        · simpa [hfull] using Looked.found (.here hfile) hread hfull
        · have hempty := eq_false_of_ne_true hfull
          have hfirst : Passed sources files first := by
            intro other hother
            obtain rfl : text = other := Option.some.inj (hfile.symm.trans hother)
            exact ⟨document, hread, hempty⟩
          simpa [hempty] using (ih hempty).later hfirst

theorem looked_candidates (sources : SettingsSources) (files : List (String × String))
    (path : Option String) :
    Looked sources files (candidates sources path)
      (choose sources files none (candidates sources path)) :=
  choose_looked sources files (candidates sources path) rfl

/-! ## Applying -/

/-- The fields of a configuration; one that is no record has none. -/
def fieldsIn : Option Value → FieldList
  | some (.record fields) => fields
  | _ => []

theorem fieldsIn_of_empty (h : nonempty configuration = false) : fieldsIn configuration = [] := by
  unfold fieldsIn
  split
  next fields => simpa using h
  next => rfl

theorem exists_record_of_fieldsIn (h : fieldsIn configuration ≠ []) :
    ∃ fields, configuration = some (.record fields) ∧ fieldsIn configuration = fields := by
  unfold fieldsIn at h ⊢
  split
  next fields => exact ⟨fields, rfl, rfl⟩
  next => simp at h

theorem nonempty_of_fieldsIn (h : fieldsIn configuration ≠ []) : nonempty configuration = true :=
  eq_true_of_ne_false (mt fieldsIn_of_empty h)

theorem ofFiles_eq (sources : SettingsSources) (files : List (String × String))
    (path : Option String) :
    ofFiles sources files path = (do
      let configuration ← choose sources files none (candidates sources path)
      defaults.apply (fieldsIn configuration)) := by
  rw [ofFiles]
  congr
  funext configuration
  have hidle : (.ok defaults : Result Settings) = defaults.apply [] :=
    (apply_nil defaults_valid).symm
  cases configuration with
  | none => exact hidle
  | some v =>
    cases v with
    | record fields => rfl
    | _ => exact hidle

theorem Valid.of_ofFiles {path : Option String} {s : Settings}
    (h : ofFiles sources files path = .ok s) : s.Valid := by
  rw [ofFiles_eq, Result.bind_eq_ok] at h
  obtain ⟨configuration, -, happly⟩ := h
  exact defaults_valid.of_apply happly

end OrderedRelations.Settings
