import Mathlib
import OrderedRelations.Proofs.Settings.Configurations

/-!
# Refusals of settings

Loading gives valid settings or refuses them, except where a failure escapes the reading of files:
an infinity stands where a number does, or a whole number has more digits than texts may have. What
the environment says is refused or taken.
-/

namespace OrderedRelations.Settings

variable {sources : SettingsSources} {files environment : List (String × String)}
  {names : List String} {path : Option String} {file text stem key : String} {document : FieldList}
  {s t : Settings} {field : Field} {mapping : FieldList} {v : Value} {failure : Failure}

/-! ## Values -/

/-- A value that fails otherwise than by a refusal where a number is read: an infinity, and a list
or a record that cannot be spelled for a refusal. -/
inductive Trips : Value → Failure → Prop
  | infinite (negative : Bool) : Trips (.float (.infinity negative)) .overflow
  | unspellable {v : Value} (hv : ∀ n, v ≠ .int n) (h : v.isSpellable Text.digitLimit = false) :
      Trips v (.text (.unspellable Text.digitLimit))

theorem Trips.ne_settings (h : Trips v failure) (fault : SettingsFault) :
    failure ≠ .settings fault := by
  cases h <;> exact Failure.noConfusion

theorem Trips.readWhole (h : Trips v failure) : readWhole key v = .error failure := by
  cases h with
  | infinite negative => rfl
  | unspellable hv h =>
    cases v with
    | int n => exact absurd rfl (hv n)
    | list items => simp [Settings.readWhole, h]
    | record fields => simp [Settings.readWhole, h]
    | _ => simp [Value.isSpellable] at h

theorem trips_of_readWhole (h : readWhole key v = .error failure) :
    (∃ fault, failure = .settings fault) ∨ Trips v failure := by
  unfold readWhole at h
  split at h
  next => cases h
  next => cases h
  next => cases h
  next => cases h
  next negative =>
    cases h
    exact .inr (.infinite negative)
  next => exact .inl ⟨_, (Result.orElse_eq_error.mp h).2.symm⟩
  next hwhole _ _ _ _ =>
    split at h
    next =>
      cases h
      exact .inl ⟨_, rfl⟩
    next hspelling =>
      cases h
      exact .inr (.unspellable hwhole (eq_false_of_ne_true hspelling))

theorem Field.read_ne_error (field : Field) (hdepth : field ≠ maxDepth)
    (hworkers : field ≠ maxWorkers) : field.read v ≠ some (.error failure) := by
  cases field with
  | maxDepth => exact absurd rfl hdepth
  | maxWorkers => exact absurd rfl hworkers
  | gapInclusive => simp [read]
  | groupColumn => cases v <;> simp [read]
  | strictTypes => simp [read]

/-! ## Mappings -/

theorem applyField_of_read (hv : mapping.lookup field.key = some v)
    (hread : field.read v = some (.error failure)) :
    applyField mapping s field = .error failure := by
  simp [applyField, hv, hread]

theorem exists_of_applyField_eq_error (h : applyField mapping s field = .error failure) :
    (∃ fault, failure = .settings fault) ∨
      ∃ v, mapping.lookup field.key = some v ∧ field.read v = some (.error failure) := by
  unfold applyField at h
  split at h
  next content hcontent =>
    rcases Result.bind_eq_error.mp h with rfl | ⟨_, _, hcheck⟩
    · exact .inr (Option.bind_eq_some_iff.mp hcontent)
    · exact .inl (exists_of_check_eq_error hcheck)
  next => cases h

/-- Fields that take every value that counts there only fail by a refusal. -/
theorem exists_of_applyFields_eq_error {fields : List Field}
    (hfields : ∀ field ∈ fields, ∀ v e, field.read v ≠ some (.error e))
    (h : fields.foldlM (applyField mapping) s = .error failure) :
    ∃ fault, failure = .settings fault := by
  induction fields generalizing s with
  | nil => cases h
  | cons first rest ih =>
    obtain ⟨hfirst, hrest⟩ := List.forall_mem_cons.mp hfields
    rw [List.foldlM_cons, Result.bind_eq_error] at h
    rcases h with h | ⟨u, -, h⟩
    · rcases exists_of_applyField_eq_error h with hfault | ⟨v, -, hread⟩
      · exact hfault
      · exact absurd hread (hfirst v failure)
    · exact ih hrest h

/-- The failures of a mapping that are no refusals: the number of levels is read first, the number
of workers only where the levels are settled. -/
inductive Escapes (mapping : FieldList) : Failure → Prop
  | depth {v : Value} {failure : Failure} (hv : mapping.lookup Field.maxDepth.key = some v)
      (h : Trips v failure) : Escapes mapping failure
  | workers {v : Value} {failure : Failure}
      (hdepth : ∀ w, mapping.lookup Field.maxDepth.key = some w →
        ∃ n, readWhole Field.maxDepth.key w = .ok n ∧ 0 ≤ n)
      (hv : mapping.lookup Field.maxWorkers.key = some v) (h : Trips v failure) :
      Escapes mapping failure

theorem Escapes.ne_nil (h : Escapes mapping failure) : mapping ≠ [] := by
  rintro rfl
  cases h with
  | depth hv => cases hv
  | workers _ hv => cases hv

theorem Escapes.ne_settings (h : Escapes mapping failure) (fault : SettingsFault) :
    failure ≠ .settings fault := by
  cases h with
  | depth _ h => exact h.ne_settings fault
  | workers _ _ h => exact h.ne_settings fault

theorem apply_cons (s : Settings) (mapping : FieldList) :
    s.apply mapping = (do
      let s ← applyField mapping s .maxDepth
      let s ← applyField mapping s .maxWorkers
      [.gapInclusive, .groupColumn, .strictTypes].foldlM (applyField mapping) s) := rfl

/-- The levels are settled where what is said about them is a number that settings allow. -/
theorem exists_settled_depth_iff {before : Int} :
    (∃ n, Field.maxDepth.Settled mapping before n) ↔
      ∀ v, mapping.lookup Field.maxDepth.key = some v →
        ∃ n, readWhole Field.maxDepth.key v = .ok n ∧ 0 ≤ n := by
  cases hv : mapping.lookup Field.maxDepth.key <;>
    simp [Field.Settled, Field.said, hv, Field.read, Field.Allows]

theorem Escapes.apply (h : Escapes mapping failure) (hs : s.Valid) :
    s.apply mapping = .error failure := by
  rw [apply_cons]
  cases h with
  | depth hv h => rw [applyField_of_read hv (congrArg some h.readWhole), Result.error_bind]
  | workers hdepth hv h =>
    -- the check behind the levels passes, whatever is said about the workers
    obtain ⟨n, hn⟩ := exists_settled_depth_iff.mpr hdepth
    rw [(applyField_eq_ok hs).mpr ⟨n, hn, rfl⟩, Result.ok_bind,
      applyField_of_read hv (congrArg some h.readWhole), Result.error_bind]

theorem escapes_of_apply (hs : s.Valid) (h : s.apply mapping = .error failure) :
    (∃ fault, failure = .settings fault) ∨ Escapes mapping failure := by
  rw [apply_cons, Result.bind_eq_error] at h
  rcases h with h | ⟨u, hu, h⟩
  · rcases exists_of_applyField_eq_error h with hfault | ⟨v, hv, hread⟩
    · exact .inl hfault
    · exact (trips_of_readWhole (Option.some.inj hread)).imp_right (.depth hv)
  obtain ⟨n, hn, -⟩ := (applyField_eq_ok hs).mp hu
  rcases Result.bind_eq_error.mp h with h | ⟨w, -, h⟩
  · rcases exists_of_applyField_eq_error h with hfault | ⟨v, hv, hread⟩
    · exact .inl hfault
    · exact (trips_of_readWhole (Option.some.inj hread)).imp_right
        (.workers (exists_settled_depth_iff.mp ⟨n, hn⟩) hv)
  · refine .inl (exists_of_applyFields_eq_error (fun field hfield v e => ?_) h)
    exact field.read_ne_error (by rintro rfl; simp at hfield) (by rintro rfl; simp at hfield)

/-- The environment holds texts alone, and a text is refused or read. -/
theorem exists_of_ofEnvironment_eq_error (hs : s.Valid)
    (h : s.ofEnvironment environment stem = .error failure) :
    ∃ fault, failure = .settings fault := by
  have htext : ∀ {field : Field} {v : Value},
      (environmentMapping environment stem).lookup field.key = some v → ¬ Trips v failure := by
    intro field v hv
    rw [lookup_environmentMapping, Option.map_eq_some_iff] at hv
    obtain ⟨text, -, rfl⟩ := hv
    rintro (- | ⟨-, hspelling⟩)
    simp [Value.isSpellable] at hspelling
  rcases escapes_of_apply hs h with hfault | ⟨hv, htrips⟩ | ⟨-, hv, htrips⟩
  · exact hfault
  · exact absurd htrips (htext hv)
  · exact absurd htrips (htext hv)

/-! ## Files -/

theorem readDocument_of_tooManyDigits {digits : Nat}
    (h : Toml.parse Text.digitLimit text = .error (.tooManyDigits digits)) :
    readDocument text = .error (.text (.tooManyDigits digits Text.digitLimit)) := by
  rw [readDocument, h]

theorem exists_of_readDocument_eq_error (h : readDocument text = .error failure) :
    (∃ fault, failure = .settings fault) ∨
      ∃ digits, Toml.parse Text.digitLimit text = .error (.tooManyDigits digits) ∧
        failure = .text (.tooManyDigits digits Text.digitLimit) := by
  unfold readDocument at h
  split at h
  next => cases h
  next => exact .inl ⟨_, (Except.error.inj h).symm⟩
  next digits heq => exact .inr ⟨digits, heq, (Except.error.inj h).symm⟩

/-- The failures of loading that are no refusals: a document has a whole number of too many
digits, or a value of the configuration that counts trips. -/
inductive LoadEscapes (sources : SettingsSources) (files : List (String × String))
    (names : List String) : Failure → Prop
  | digits {file text : String} {digits : Nat} (h : LookedAt sources files names file text)
      (hread : Toml.parse Text.digitLimit text = .error (.tooManyDigits digits)) :
      LoadEscapes sources files names (.text (.tooManyDigits digits Text.digitLimit))
  | value {file text : String} {document mapping : FieldList} {failure : Failure}
      (h : LookedAt sources files names file text)
      (hread : Toml.parse Text.digitLimit text = .ok document)
      (hmapping : configurationIn sources file document = some (.record mapping))
      (hescapes : Escapes mapping failure) : LoadEscapes sources files names failure

theorem LoadEscapes.ne_settings (h : LoadEscapes sources files names failure)
    (fault : SettingsFault) : failure ≠ .settings fault := by
  cases h with
  | digits => exact Failure.noConfusion
  | value _ _ _ hescapes => exact hescapes.ne_settings fault

theorem LoadEscapes.ofFiles (h : LoadEscapes sources files (candidates sources path) failure) :
    ofFiles sources files path = .error failure := by
  rw [ofFiles_eq]
  cases h with
  | digits h hread =>
    rw [h.choose_eq_error (readDocument_of_tooManyDigits hread) rfl, Result.error_bind]
  | value h hread hmapping hescapes =>
    have hfull : nonempty (configurationIn sources _ _) = true :=
      nonempty_of_fieldsIn (by rw [hmapping]; exact hescapes.ne_nil)
    rw [h.choose_eq_ok (readDocument_eq_ok.mpr hread) hfull rfl, Result.ok_bind, hmapping]
    exact hescapes.apply defaults_valid

theorem LoadEscapes.load (h : LoadEscapes sources files (candidates sources path) failure) :
    load sources files environment path = .error failure := by
  rw [Settings.load, h.ofFiles, Result.error_bind]

theorem escapes_of_ofFiles (h : ofFiles sources files path = .error failure) :
    (∃ fault, failure = .settings fault) ∨
      LoadEscapes sources files (candidates sources path) failure := by
  rw [ofFiles_eq] at h
  have hlooked := looked_candidates sources files path
  generalize choose sources files none (candidates sources path) = outcome at h hlooked
  cases hlooked with
  | unreadable hfile hread =>
    cases h
    rcases exists_of_readDocument_eq_error hread with hfault | ⟨digits, hparse, rfl⟩
    · exact .inl hfault
    · exact .inr (.digits hfile hparse)
  | @found file text document hfile hread hfull =>
    rw [Result.ok_bind] at h
    refine (escapes_of_apply defaults_valid h).imp_right fun hescapes => ?_
    obtain ⟨mapping, hmapping, heq⟩ := exists_record_of_fieldsIn hescapes.ne_nil
    exact .value hfile (readDocument_eq_ok.mp hread) hmapping (heq ▸ hescapes)
  | nothing _ hlast =>
    rw [Result.ok_bind, fieldsIn_of_empty hlast, apply_nil defaults_valid] at h
    cases h

/-- Loading gives valid settings or refuses them, whatever files and variables there are, exactly
if no failure escapes; and one that escapes is what loading fails with. -/
theorem load_answers_iff (sources : SettingsSources) (files environment : List (String × String))
    (path : Option String) :
    (((∃ s, load sources files environment path = .ok s ∧ s.Valid) ∨
        ∃ fault, load sources files environment path = .error (.settings fault)) ↔
      ∀ failure, ¬ LoadEscapes sources files (candidates sources path) failure) ∧
    ∀ failure, LoadEscapes sources files (candidates sources path) failure →
      load sources files environment path = .error failure := by
  refine ⟨⟨?_, fun hnone => ?_⟩, fun failure h => h.load⟩
  · rintro (⟨s, hs, -⟩ | ⟨fault, hfault⟩) failure hescapes
    · cases hs.symm.trans hescapes.load
    · exact hescapes.ne_settings fault (Except.error.inj (hescapes.load.symm.trans hfault))
  · cases hload : load sources files environment path with
    | error failure =>
      rw [load, Result.bind_eq_error] at hload
      rcases hload with hfiles | ⟨s, hs, henvironment⟩
      · rcases escapes_of_ofFiles hfiles with ⟨fault, rfl⟩ | hescapes
        · exact .inr ⟨fault, rfl⟩
        · exact absurd hescapes (hnone failure)
      · obtain ⟨fault, rfl⟩ :=
          exists_of_ofEnvironment_eq_error (Valid.of_ofFiles hs) henvironment
        exact .inr ⟨fault, rfl⟩
    | ok s =>
      obtain ⟨base, hbase, henvironment⟩ := Result.bind_eq_ok.mp hload
      exact .inl ⟨s, rfl, (Valid.of_ofFiles hbase).of_apply henvironment⟩

/-- An infinity under the number of workers escapes from the shared file, where the own one is not
there; that a variable sets the workers comes too late. -/
theorem load_answers_iff_infiniteWorkers :
    load .standard [("pyproject.toml", "[tool.relq]\nmax_workers = -inf\n")]
      [("RELQ_MAX_WORKERS", "2")] none = .error .overflow := by
  have hread : Toml.parse Text.digitLimit "[tool.relq]\nmax_workers = -inf\n" =
      .ok [("tool", .record [("relq", .record
        [("max_workers", .float (.infinity true))])])] := by cbv
  have hlooked : LookedAt .standard [("pyproject.toml", "[tool.relq]\nmax_workers = -inf\n")]
      (candidates .standard none) "pyproject.toml" "[tool.relq]\nmax_workers = -inf\n" :=
    .later (passed_of_absent (by decide)) (.here (by decide))
  have hescapes : Escapes [("max_workers", .float (.infinity true))] .overflow :=
    .workers (by simp [Field.key, List.lookup_cons]) rfl (.infinite true)
  exact (load_answers_iff ..).2 .overflow (.value hlooked hread rfl hescapes)

/-- An infinity under the number of levels is no refusal. -/
theorem load_infiniteDepth :
    load .standard [("relq.toml", "max_depth = inf\n")] [] none = .error .overflow := by
  have hread : Toml.parse Text.digitLimit "max_depth = inf\n" =
      .ok [("max_depth", .float (.infinity false))] := by cbv
  have hlooked : LookedAt .standard [("relq.toml", "max_depth = inf\n")]
      (candidates .standard none) "relq.toml" "max_depth = inf\n" := .here (by decide)
  exact (LoadEscapes.value hlooked hread rfl (.depth rfl (.infinite false))).load

end OrderedRelations.Settings
