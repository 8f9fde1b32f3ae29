import Mathlib
import OrderedRelations.Proofs.Query.QualifyingStreaks

/-!
# Columns that a call for streaks names

Streaks by coordinates read the relation itself, so every column that such a call names is one of the
relation. Streaks of rows that pass a test are numbered over the relation with a scratch column, and
a call can name this column too, though the relation does not have it.
-/

namespace OrderedRelations

open Result (Yields)

namespace StreakCriterion

/-- The columns that a call for streaks names: the measured one, if any, those that split the rows
and those that order them. -/
def reads (criterion : StreakCriterion) (partitionBy : List String) (orderBy : List OrderKey) :
    List String :=
  criterion.column?.toList ++ partitionBy ++ orderBy.map OrderKey.column

/-- The name under which a criterion keeps which rows pass its test. -/
def Keeps (schema : Schema) (name : String) : StreakCriterion → Prop
  | qualifying _ => name = Streak.scratchName schema "qualifies"
  | _ => False

theorem Keeps.absent {schema : Schema} {name : String} {criterion : StreakCriterion}
    (h : criterion.Keeps schema name) : name ∉ schema.names := by
  cases criterion with
  | qualifying test =>
    cases h
    exact Streak.scratchName_free schema "qualifies"
  | _ => exact h.elim

end StreakCriterion

namespace Window

theorem reads_of_evaluate {r : Relation} {spec : WindowSpec} {values : List Value}
    (h : evaluate r spec = .ok values) : ∀ name ∈ spec.reads, name ∈ r.names := by
  obtain ⟨frame, hv, -⟩ := Result.bind_eq_ok.mp h
  exact reads_of_validate hv

end Window

namespace Streak

variable {r : Relation} {partitionBy : List String} {orderBy : List OrderKey} {column : String}
  {type : ColumnType} {criterion : StreakCriterion} {gapInclusive : Bool} {numbers : List Value}

theorem column_of_measured {schema : Schema} {named : Option String}
    (h : measured schema orderBy named = .ok (column, type)) {name : String}
    (hname : named = some name) : name ∈ schema.names := by
  subst hname
  simp only [measured, Result.pure_eq_ok, Result.ok_bind] at h
  split at h
  · cases h
  · rename_i c hfind
    have hname := List.find?_some hfind
    exact List.mem_map.mpr ⟨c, List.mem_of_find?_eq_some hfind, by simpa using hname⟩

/-- Runs of measured rows are started by a window function over the columns of the relation. -/
theorem reads_of_numberRuns {starts : Relation → Result (List Bool)} (spec : WindowSpec)
    (hstarts : ∀ rows flags, starts rows = .ok flags →
      ∃ found, Window.evaluate rows spec = .ok found)
    (h : numberRuns r partitionBy orderBy column starts = .ok numbers) :
    ∀ name ∈ spec.reads, name ∈ r.names := by
  obtain ⟨values, -, h⟩ := Result.bind_eq_ok.mp h
  obtain ⟨flags, hflags, -⟩ := Result.bind_eq_ok.mp h
  obtain ⟨found, hfound⟩ := hstarts _ _ hflags
  have hreads : ∀ name ∈ spec.reads, name ∈ (present r (presentPositions values)).names :=
    Window.reads_of_evaluate hfound
  exact hreads

/-- A measured column is one of the relation, and so are the others that a call by coordinates
names. -/
theorem reads_of_measured {named : Option String}
    (hmeasured : measured r.schema orderBy named = .ok (column, type))
    (hrest : ∀ name ∈ partitionBy ++ orderBy.map OrderKey.column, name ∈ r.names) :
    ∀ name ∈ named.toList ++ partitionBy ++ orderBy.map OrderKey.column, name ∈ r.names := by
  intro name hname
  rw [List.append_assoc, List.mem_append] at hname
  rcases hname with hname | hname
  · exact column_of_measured hmeasured (Option.mem_toList.mp hname)
  · exact hrest name hname

theorem reads_of_ids (h : ids r partitionBy orderBy criterion gapInclusive = .ok numbers) :
    ∀ name ∈ criterion.reads partitionBy orderBy,
      name ∈ r.names ∨ criterion.Keeps r.schema name := by
  unfold ids at h
  split at h
  · cases h
  cases criterion with
  | qualifying test =>
    obtain ⟨flags, -, h⟩ := Result.bind_eq_ok.mp h
    obtain ⟨flagged, hflagged, h⟩ := Result.bind_eq_ok.mp h
    obtain ⟨all, hall, -⟩ := Result.bind_eq_ok.mp h
    obtain ⟨_, _, -, -, happended⟩ := Relation.withColumn_iff.mp hflagged
    intro name hname
    have hmem := Window.reads_of_evaluate hall name hname
    rw [happended.names, List.mem_append, List.mem_singleton] at hmem
    exact hmem
  | consecutive named step =>
    obtain ⟨⟨column, type⟩, hmeasured, h⟩ := Result.bind_eq_ok.mp h
    obtain ⟨d, -, h⟩ := Result.bind_eq_ok.mp h
    have hnumbering := reads_of_numberRuns (.numbering partitionBy orderBy)
      (fun rows flags hflags => (Result.bind_eq_ok.mp hflags).imp fun _ h => h.1) h
    exact fun name hname => .inl (reads_of_measured hmeasured hnumbering name hname)
  | gap named tolerance inclusive =>
    obtain ⟨⟨column, type⟩, hmeasured, h⟩ := Result.bind_eq_ok.mp h
    obtain ⟨d, -, h⟩ := Result.bind_eq_ok.mp h
    have hprevious := reads_of_numberRuns
      ⟨.lag column 1 .null, partitionBy, orderBy, none, none⟩
      (fun rows flags hflags => (Result.bind_eq_ok.mp hflags).imp fun _ h => h.1) h
    have hrest : ∀ name ∈ partitionBy ++ orderBy.map OrderKey.column, name ∈ r.names :=
      fun name hname => hprevious name (List.mem_cons_of_mem column hname)
    exact fun name hname => .inl (reads_of_measured hmeasured hrest name hname)

/-- A call that names the scratch column of its test is answered as if it were a column. -/
theorem qualifyingIds_yields (hr : r.WellFormed) (hne : orderBy ≠ []) {test : Row → Result Bool}
    (htest : ∀ values ∈ r.rows, ∃ b, test (r.row values) = .ok b)
    (hreads : ∀ name ∈ partitionBy ++ orderBy.map OrderKey.column,
      name ∈ r.names ∨ (StreakCriterion.qualifying test).Keeps r.schema name) :
    Yields (qualifyingIds r partitionBy orderBy test) fun _ => True := by
  obtain ⟨flags, hflags⟩ := Result.exists_mapM_iff.mpr htest
  have htyped : ∀ v ∈ flags.map Value.bool, v.conforms .boolean = true :=
    List.forall_mem_map.mpr fun _ _ => rfl
  have hlength : (flags.map Value.bool).length = r.size := by
    rw [List.length_map, ← (Result.mapM_eq_ok.mp hflags).length_eq, Relation.size]
  obtain ⟨flagged, hflagged, happended⟩ := exists_scratch r "qualifies" hlength htyped
  have hmem : ∀ name ∈ partitionBy ++ orderBy.map OrderKey.column, name ∈ flagged.names := by
    intro name hname
    rw [happended.names, List.mem_append, List.mem_singleton]
    exact hreads name hname
  have hp : ∀ name ∈ partitionBy, name ∈ flagged.names :=
    fun name hname => hmem name (List.mem_append_left _ hname)
  have ho : ∀ k ∈ orderBy, k.column ∈ flagged.names :=
    fun k hk => hmem _ (List.mem_append_right _ (List.mem_map.mpr ⟨k, hk, rfl⟩))
  have hflag : scratchName r.schema "qualifies" ∈ flagged.names := by
    rw [happended.names]
    exact List.mem_append_right _ (List.mem_singleton.mpr rfl)
  have hnumbering : ∀ names : List String, (∀ name ∈ names, name ∈ flagged.names) →
      Yields (Window.evaluate flagged (.numbering names orderBy)) fun _ => True := by
    intro names hnames
    have hv : Window.validate flagged.schema (.numbering names orderBy) = .ok none :=
      Window.validate_eq_none hnames ho hne rfl rfl
    exact (Window.evaluate_yields (happended.wellFormed hr htyped) hv rfl).mono fun _ _ => trivial
  simp only [qualifyingIds, hflags, hflagged, Result.ok_bind]
  refine (hnumbering _ hp).bind fun all _ => (hnumbering _ ?_).bind fun within _ => .ok trivial
  simpa [or_imp, forall_and, hflag] using hp

end Streak

namespace Query

variable {r : Relation} {partitions order : Value} {partitionBy : List String}
  {orderBy : List OrderKey}

/-- Streaks answer for columns of the relation only, with one exception: a call with a test may name
the scratch column that keeps which rows pass, which the relation does not have, and then it is
answered all the same. -/
theorem reads_of_streaks
    (hshape : WindowSpec.shapeOfValues partitions order = .ok (partitionBy, orderBy))
    (criterion : StreakCriterion) (settings : Settings) (outputColumn : Option String) :
    ((∃ numbers, streakIds r partitions order criterion settings = .ok numbers) ∨
      (∃ grouped, groupStreaks r partitions order criterion settings outputColumn = .ok grouped) →
        ∀ name ∈ criterion.reads partitionBy orderBy,
          name ∈ r.names ∨ name ∉ r.names ∧ criterion.Keeps r.schema name) ∧
    ∀ test, criterion = .qualifying test → r.WellFormed → orderBy ≠ [] →
      (∀ values ∈ r.rows, ∃ b, test (r.row values) = .ok b) →
      (∀ name ∈ criterion.reads partitionBy orderBy,
        name ∈ r.names ∨ criterion.Keeps r.schema name) →
      Yields (streakIds r partitions order criterion settings) fun _ => True := by
  simp only [streakIds_eq_ids hshape]
  constructor
  · intro h
    obtain ⟨numbers, hnumbers⟩ : ∃ numbers,
        Streak.ids r partitionBy orderBy criterion settings.gapInclusive = .ok numbers := by
      rcases h with h | ⟨grouped, h⟩
      · exact h
      · simp only [groupStreaks] at h
        split at h
        · cases h
        · obtain ⟨numbers, hnumbers, -⟩ := Result.bind_eq_ok.mp h
          exact ⟨numbers, (streakIds_eq_ids hshape settings).symm.trans hnumbers⟩
    intro name hname
    exact (Streak.reads_of_ids hnumbers name hname).imp_right fun h => ⟨h.absent, h⟩
  · rintro test rfl hr hne htest hreads
    have hsome : orderBy.isEmpty = false := by simpa using hne
    have hids : Streak.ids r partitionBy orderBy (.qualifying test) settings.gapInclusive =
        Streak.qualifyingIds r partitionBy orderBy test := by simp [Streak.ids, hsome]
    rw [hids]
    exact Streak.qualifyingIds_yields hr hne htest hreads

/-- Soundings at two hours, of which only the hours are left. -/
def soundings : Relation :=
  ⟨⟨[⟨"hour", .integer, by decide⟩], by decide⟩, [[.int 1], [.int 2]]⟩

/-- A test that all rows pass. -/
def anyRow : StreakCriterion := .qualifying fun _ => .ok true

theorem shape_scratch : WindowSpec.shapeOfValues (.text "__qualifies") (.text "hour") =
    .ok (["__qualifies"], [⟨"hour", .asc, .last⟩]) := by
  cbv

/-- The soundings are split by a column that they do not have, and have ids. -/
theorem streakIds_soundings :
    "__qualifies" ∈ anyRow.reads ["__qualifies"] [⟨"hour", .asc, .last⟩] ∧
    "__qualifies" ∉ soundings.names ∧
    streakIds soundings (.text "__qualifies") (.text "hour") anyRow .defaults =
      .ok [.int 0, .int 0] := by
  refine ⟨by decide, by decide, ?_⟩
  cbv

theorem reads_of_streaks_soundings :
    (∃ grouped, groupStreaks soundings (.text "__qualifies") (.text "hour") anyRow .defaults none =
      .ok grouped) ∧
    (∀ name ∈ ["__qualifies", "hour"], name ∈ soundings.names ∨
      name ∉ soundings.names ∧ anyRow.Keeps soundings.schema name) ∧
    Yields (streakIds soundings (.text "__qualifies") (.text "hour") anyRow .defaults)
      fun _ => True := by
  obtain ⟨honly, hanswered⟩ := reads_of_streaks shape_scratch anyRow .defaults none
  have hgrouped : ∃ grouped, groupStreaks soundings (.text "__qualifies") (.text "hour") anyRow
      .defaults none = .ok grouped := ⟨_, by cbv⟩
  have hreads := honly (.inr hgrouped)
  refine ⟨hgrouped, hreads, ?_⟩
  exact hanswered _ rfl (by decide) (by simp) (fun _ _ => ⟨true, rfl⟩)
    fun name hname => (hreads name hname).imp_right And.right

end Query
end OrderedRelations
