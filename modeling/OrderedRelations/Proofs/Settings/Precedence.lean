import Mathlib
import OrderedRelations.Proofs.Settings.Configurations

/-!
# Precedence among sources

Each field of loaded settings comes from one source: from its variable of the environment, or else
from its key in the first configuration that is not empty, or else from the defaults. Other
variables and other keys have no part in it.
-/

namespace OrderedRelations

/-- The own file does not pass for the shared one, and the shared one passes for itself. -/
structure SettingsSources.Apart (sources : SettingsSources) : Prop where
  own : Settings.fileName (Settings.normalPath sources.ownFile) ≠ sources.sharedFile
  shared : Settings.fileName (Settings.normalPath sources.sharedFile) = sources.sharedFile

theorem SettingsSources.standard_apart : standard.Apart := ⟨by decide, by decide⟩

namespace Settings

variable {sources : SettingsSources} {files environment : List (String × String)}
  {file text : String} {document : FieldList} {configuration : Option Value} {s : Settings}
  {field : Field} {v : Value}

/-! ## The first configuration -/

/-- The document of a file that is there and can be read. -/
def document? (files : List (String × String)) (file : String) : Option FieldList :=
  (files.lookup (normalPath file)).bind fun text => (Toml.parse Text.digitLimit text).toOption

/-- The own table of a document where it is a table, and else the document. -/
def ownConfiguration (sources : SettingsSources) (document : FieldList) : FieldList :=
  match document.lookup sources.ownTable with
  | some (.record table) => table
  | _ => document

/-- The shared table of a document; where it is no table, nothing is configured. -/
def sharedConfiguration (sources : SettingsSources) (document : FieldList) : FieldList :=
  match document.lookup sources.sharedTable.1 with
  | some (.record tables) =>
    match tables.lookup sources.sharedTable.2 with
    | some (.record table) => table
    | _ => []
  | _ => []

/-- The configuration of the own file, or that of the shared file where it is empty. -/
def firstConfiguration (sources : SettingsSources) (files : List (String × String)) : FieldList :=
  match (document? files sources.ownFile).elim [] (ownConfiguration sources) with
  | [] => (document? files sources.sharedFile).elim [] (sharedConfiguration sources)
  | own => own

theorem document?_eq_some (hfile : files.lookup (normalPath file) = some text)
    (hread : readDocument text = .ok document) : document? files file = some document := by
  rw [document?, hfile, Option.bind_some, readDocument_eq_ok.mp hread]
  rfl

theorem configurationIn_own (h : sources.Apart) (document : FieldList) :
    configurationIn sources sources.ownFile document =
      some (.record (ownConfiguration sources document)) := by
  rw [configurationIn, select, if_neg h.own, ownConfiguration]
  cases document.lookup sources.ownTable with
  | none => rfl
  | some v => cases v <;> rfl

theorem fieldsIn_own (h : sources.Apart) (document : FieldList) :
    fieldsIn (configurationIn sources sources.ownFile document) =
      ownConfiguration sources document := by
  rw [configurationIn_own h, fieldsIn]

theorem fieldsIn_shared (h : sources.Apart) (document : FieldList) :
    fieldsIn (configurationIn sources sources.sharedFile document) =
      sharedConfiguration sources document := by
  rw [configurationIn, select, if_pos h.shared, sharedConfiguration]
  cases document.lookup sources.sharedTable.1 with
  | none => rfl
  | some v =>
    cases v with
    | record tables =>
      cases htable : tables.lookup sources.sharedTable.2 with
      | none => simp [htable, fieldsIn]
      | some table => cases table <;> simp [htable, fieldsIn]
    | _ => rfl

/-- A file that is passed configures nothing. -/
theorem Passed.elim_eq_nil {fieldsOf : FieldList → FieldList} (h : Passed sources files file)
    (hfields : ∀ document, fieldsIn (configurationIn sources file document) = fieldsOf document) :
    (document? files file).elim [] fieldsOf = [] := by
  cases hfile : files.lookup (normalPath file) with
  | none => simp [document?, hfile]
  | some text =>
    obtain ⟨document, hread, hempty⟩ := h text hfile
    rw [document?_eq_some hfile hread, Option.elim_some, ← hfields, fieldsIn_of_empty hempty]

/-- What the looking through both files ends with has the fields of the first configuration. -/
theorem Looked.fieldsIn_eq {outcome : Result (Option Value)} (hsources : sources.Apart)
    (h : Looked sources files (candidates sources none) outcome)
    (houtcome : outcome = .ok configuration) :
    fieldsIn configuration = firstConfiguration sources files := by
  cases h with
  | unreadable => cases houtcome
  | @found file text document hfile hread hfull =>
    rw [← Except.ok.inj houtcome]
    cases hfile with
    | here hfile =>
      rw [configurationIn_own hsources] at hfull
      have hne : ownConfiguration sources document ≠ [] := fun hnil => by simp [hnil] at hfull
      rw [firstConfiguration, document?_eq_some hfile hread, Option.elim_some,
        fieldsIn_own hsources]
      split
      next hnil => exact absurd hnil hne
      next => rfl
    | later hpassed hfile =>
      cases hfile with
      | here hfile =>
        rw [firstConfiguration, hpassed.elim_eq_nil (fieldsIn_own hsources),
          document?_eq_some hfile hread, Option.elim_some, fieldsIn_shared hsources]
      | later _ hfile => cases hfile
  | nothing hpassed hlast =>
    have hown := hpassed sources.ownFile (by simp [candidates])
    have hshared := hpassed sources.sharedFile (by simp [candidates])
    rw [← Except.ok.inj houtcome, fieldsIn_of_empty hlast, firstConfiguration,
      hown.elim_eq_nil (fieldsIn_own hsources), hshared.elim_eq_nil (fieldsIn_shared hsources)]

/-- The settings that files alone give are those of the first configuration. -/
theorem apply_firstConfiguration (hsources : sources.Apart)
    (h : ofFiles sources files none = .ok s) :
    defaults.apply (firstConfiguration sources files) = .ok s := by
  rw [ofFiles_eq, Result.bind_eq_ok] at h
  obtain ⟨configuration, hchosen, happly⟩ := h
  rwa [(looked_candidates sources files none).fieldsIn_eq hsources hchosen] at happly

/-! ## Decisions -/

theorem Field.read_eq_none_iff :
    field.read v = none ↔ field = .groupColumn ∧ ∀ name, v ≠ .text name := by
  cases field with
  | groupColumn => cases v <;> simp [read]
  | _ => simp [read]

/-- Where the content of a field comes from: from the text of its variable, or else from the value
of its key, or else from the defaults. For the name of the column only a text is a value. -/
inductive Field.DecidedBy (field : Field) (variableText : Option String) (value : Option Value)
    (content : field.Content) : Prop
  | environment {text : String} (htext : variableText = some text)
      (hread : field.read (.text text) = some (.ok content))
  | configuration {v : Value} (htext : variableText = none) (hvalue : value = some v)
      (hread : field.read v = some (.ok content))
  | default (htext : variableText = none)
      (hvalue : ∀ v, value = some v → field = .groupColumn ∧ ∀ name, v ≠ .text name)
      (hcontent : content = defaults.get field)

theorem Field.DecidedBy.unique {variableText : Option String} {value : Option Value}
    {content other : field.Content} (h : field.DecidedBy variableText value content)
    (h' : field.DecidedBy variableText value other) : content = other := by
  have hcounts {v : Value} {c : field.Content} (hread : field.read v = some (.ok c)) :
      ¬ (field = .groupColumn ∧ ∀ name, v ≠ .text name) := by
    rw [← Field.read_eq_none_iff, hread]
    exact Option.some_ne_none _
  have hread {v w : Value} {c d : field.Content} (hvw : some v = some w)
      (hv : field.read v = some (.ok c)) (hw : field.read w = some (.ok d)) : c = d := by
    obtain rfl := Option.some.inj hvw
    exact Except.ok.inj (Option.some.inj (hv.symm.trans hw))
  cases h with
  | environment htext hcontent =>
    cases h' with
    | environment htext' hother =>
      obtain rfl := Option.some.inj (htext.symm.trans htext')
      exact hread rfl hcontent hother
    | configuration hno => cases htext.symm.trans hno
    | default hno => cases htext.symm.trans hno
  | configuration hno hvalue hcontent =>
    cases h' with
    | environment htext => cases htext.symm.trans hno
    | configuration _ hvalue' hother => exact hread (hvalue.symm.trans hvalue') hcontent hother
    | default _ hnone => exact absurd (hnone _ hvalue) (hcounts hcontent)
  | default hno hnone hcontent =>
    cases h' with
    | environment htext => cases htext.symm.trans hno
    | configuration _ hvalue hother => exact absurd (hnone _ hvalue) (hcounts hother)
    | default _ _ hother => exact hcontent.trans hother.symm

/-- A field that the configuration settles first and the environment then is decided by both. -/
theorem Field.Settled.decidedBy {mapping : FieldList} {stem : String} {between : field.Content}
    {content : field.Content} (hmapping : field.Settled mapping (defaults.get field) between)
    (henvironment : field.Settled (environmentMapping environment stem) between content) :
    field.DecidedBy (field.environmentText? environment stem) (mapping.lookup field.key)
      content := by
  unfold Settled said at henvironment hmapping
  rw [lookup_environmentMapping] at henvironment
  cases htext : field.environmentText? environment stem with
  | some text =>
    rw [htext, Option.map_some, Option.bind_some] at henvironment
    split at henvironment
    next read hread => exact .environment rfl (henvironment.1 ▸ hread)
    next hnone => exact absurd rfl ((Field.read_eq_none_iff.mp hnone).2 text)
  | none =>
    rw [htext, Option.map_none, Option.bind_none] at henvironment
    subst henvironment
    cases hvalue : mapping.lookup field.key with
    | none =>
      rw [hvalue, Option.bind_none] at hmapping
      exact .default rfl (by simp) hmapping
    | some v =>
      rw [hvalue, Option.bind_some] at hmapping
      split at hmapping
      next read hread => exact .configuration rfl rfl (hmapping.1 ▸ hread)
      next hnone =>
        refine .default rfl (fun w hw => ?_) hmapping
        exact Option.some.inj hw ▸ Field.read_eq_none_iff.mp hnone

theorem load_decidedBy (hsources : sources.Apart)
    (hload : load sources files environment none = .ok s) (field : Field) :
    field.DecidedBy (field.environmentText? environment sources.variableStem)
      ((firstConfiguration sources files).lookup field.key) (s.get field) := by
  obtain ⟨base, hbase, henvironment⟩ := Result.bind_eq_ok.mp hload
  have hvalid := Valid.of_ofFiles hbase
  have hmapping := (apply_eq_ok defaults_valid).mp (apply_firstConfiguration hsources hbase)
  exact (hmapping field).decidedBy ((apply_eq_ok hvalid).mp henvironment field)

/-- Loading decides each field on its own, by its variable, its key in the first configuration or
its default. Settings loaded at other times agree on a field as soon as its variable and its key
do. -/
theorem load_fields (hsources : sources.Apart)
    (hload : load sources files environment none = .ok s) :
    (∀ field : Field,
      field.DecidedBy (field.environmentText? environment sources.variableStem)
        ((firstConfiguration sources files).lookup field.key) (s.get field)) ∧
    ∀ {files' environment' : List (String × String)} {t : Settings},
      load sources files' environment' none = .ok t →
      ∀ field : Field,
        field.environmentText? environment sources.variableStem =
            field.environmentText? environment' sources.variableStem →
        (firstConfiguration sources files).lookup field.key =
            (firstConfiguration sources files').lookup field.key →
        s.get field = t.get field := by
  refine ⟨load_decidedBy hsources hload, ?_⟩
  intro files' environment' t hload' field htext hvalue
  have hs := load_decidedBy hsources hload field
  have ht := load_decidedBy hsources hload' field
  rw [← htext, ← hvalue] at ht
  exact hs.unique ht

/-- An own file whose name for the column is no text. -/
def ownText : String :=
  "[query]\nmax_depth = 9\nmax_workers = 2\ngroup_id_column = 7\n"

theorem parse_ownText : Toml.parse Text.digitLimit ownText = .ok [("query", .record
    [("max_depth", .int 9), ("max_workers", .int 2), ("group_id_column", .int 7)])] := by cbv

/-- Variables of which one is empty. -/
def overrides : List (String × String) :=
  [("RELQ_MAX_DEPTH", "25"), ("RELQ_GAP_INCLUSIVE", "off"), ("RELQ_STRICT_SCHEMA", "")]

theorem load_overrides :
    load .standard [("relq.toml", ownText)] overrides none =
      .ok ⟨25, 2, false, "group_id", true⟩ := by
  have hread := readDocument_eq_ok.mpr parse_ownText
  have hlooked : LookedAt .standard [("relq.toml", ownText)] (candidates .standard none)
      "relq.toml" ownText := .here (by rfl)
  have hfiles : ofFiles .standard [("relq.toml", ownText)] none =
      .ok ⟨9, 2, true, "group_id", true⟩ := by
    rw [ofFiles_eq, hlooked.choose_eq_ok hread rfl rfl]
    rfl
  rw [load, hfiles]
  rfl

/-- The environment decides the levels and the gaps, the file the workers, and the defaults the
rest. -/
theorem load_fields_overrides :
    load .standard [("relq.toml", ownText)] overrides none =
        .ok ⟨25, 2, false, "group_id", true⟩ ∧
      ∀ field : Field, field.DecidedBy (field.environmentText? overrides "RELQ_")
        ((firstConfiguration .standard [("relq.toml", ownText)]).lookup field.key)
        (get ⟨25, 2, false, "group_id", true⟩ field) :=
  ⟨load_overrides, (load_fields SettingsSources.standard_apart load_overrides).1⟩

end Settings
end OrderedRelations
