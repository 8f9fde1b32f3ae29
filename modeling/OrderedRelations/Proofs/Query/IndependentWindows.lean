import Mathlib
import OrderedRelations.Proofs.Window.WiderEvaluation
import OrderedRelations.Query

/-!
# Windows are independent columns

Appending a window column keeps the columns, the rows and their order. So windows that do not name
each other's columns can be appended in either order, and each column of a query holds what its
window has over the relation built before it, with whole numbers widened where the column holds
doubles.
-/

namespace OrderedRelations

namespace Relation

/-- Relations with equally many rows and the same names, under each of which both have the same type
and the same values, row by row. -/
structure SameColumns (r s : Relation) : Prop where
  size : r.size = s.size
  names : ∀ name, name ∈ r.names ↔ name ∈ s.names
  types : ∀ name ∈ r.names, r.schema.typeOf name = s.schema.typeOf name
  values : ∀ name ∈ r.names, r.column name = s.column name

namespace Appended

variable {r s : Relation} {c : Column} {cells : List Value}

/-- Two columns that are appended one after the other come to the same in either order. -/
theorem swap {d : Column} {more : List Value} {s' t t' : Relation} (hr : r.WellFormed)
    (hs : Appended r c cells s) (hs' : Appended s d more s') (ht : Appended r d more t)
    (ht' : Appended t c cells t') (hwell : s.WellFormed) (hwell' : t.WellFormed) :
    s'.SameColumns t' := by
  have hnames : ∀ name, name ∈ s'.names ↔ name ∈ t'.names := by
    intro name
    simp only [hs'.names, hs.names, ht'.names, ht.names, List.mem_append, List.mem_singleton]
    tauto
  have hsame : ∀ name ∈ s'.names, s'.schema.typeOf name = t'.schema.typeOf name ∧
      s'.column name = t'.column name := by
    intro name hname
    have hc : c.name ∈ s.names := by simp [hs.names]
    have hd : d.name ∈ t.names := by simp [ht.names]
    simp only [hs'.names, hs.names, List.mem_append, List.mem_singleton] at hname
    rcases hname with (hname | rfl) | rfl
    · rw [(hs'.column_ne hwell (hs.widens.mem_names hname)).1, (hs.column_ne hr hname).1,
        (hs'.column_ne hwell (hs.widens.mem_names hname)).2, (hs.column_ne hr hname).2,
        (ht'.column_ne hwell' (ht.widens.mem_names hname)).1, (ht.column_ne hr hname).1,
        (ht'.column_ne hwell' (ht.widens.mem_names hname)).2, (ht.column_ne hr hname).2]
      exact ⟨rfl, rfl⟩
    · rw [(hs'.column_ne hwell hc).1, hs.typeOf, (hs'.column_ne hwell hc).2, hs.column hr,
        ht'.typeOf, ht'.column hwell']
      exact ⟨rfl, rfl⟩
    · rw [(ht'.column_ne hwell' hd).1, ht.typeOf, (ht'.column_ne hwell' hd).2, ht.column hr,
        hs'.typeOf, hs'.column hwell]
      exact ⟨rfl, rfl⟩
  have hsize : s'.size = t'.size := by
    rw [hs'.widens.size_eq, hs.widens.size_eq, ht'.widens.size_eq, ht.widens.size_eq]
  exact ⟨hsize, hnames, fun name hname => (hsame name hname).1,
    fun name hname => (hsame name hname).2⟩

end Appended
end Relation

namespace Window

variable {r s : Relation} {spec : WindowSpec} {type : ColumnType} {cells : List Value}

theorem length_of_evaluate {values : List Value} (h : evaluate r spec = .ok values) :
    values.length = r.size := by
  obtain ⟨_, -, h⟩ := Result.bind_eq_ok.mp h
  obtain ⟨_, -, h⟩ := Result.bind_eq_ok.mp h
  obtain ⟨_, -, h⟩ := Result.bind_eq_ok.mp h
  cases h
  simp [scatter]

/-- A window has values over a relation, and these enter a column of its output type as cells. -/
def Computes (r : Relation) (spec : WindowSpec) (type : ColumnType) (cells : List Value) : Prop :=
  ∃ values, evaluate r spec = .ok values ∧ spec.function.outputType r.schema = .ok type ∧
    values.mapM (spec.column type).coerce = .ok cells

theorem Computes.reads (h : Computes r spec type cells) : ∀ name ∈ spec.reads, name ∈ r.names := by
  obtain ⟨values, hvalues, -⟩ := h
  obtain ⟨_, hv, -⟩ := Result.bind_eq_ok.mp hvalues
  exact reads_of_validate hv

theorem Computes.length (h : Computes r spec type cells) : cells.length = r.size := by
  obtain ⟨values, hvalues, -, hcells⟩ := h
  rw [← (Result.mapM_eq_ok.mp hcells).length_eq, length_of_evaluate hvalues]

theorem Computes.conforms (h : Computes r spec type cells) : ∀ v ∈ cells, v.conforms type = true := by
  obtain ⟨values, -, -, hcells⟩ := h
  intro v hv
  obtain ⟨_, -, hentered⟩ := Result.exists_source_of_mapM hcells hv
  exact (Column.coerce_eq_ok hentered).1

/-- Further columns that a window does not name change nothing in what it computes. -/
theorem computes_wider {wide : Relation} (hr : r.WellFormed) (h : Relation.Widens r wide)
    (hreads : ∀ name ∈ spec.reads, name ∈ r.names) :
    Computes wide spec type cells ↔ Computes r spec type cells := by
  have htype := outputType_wider h.columns fun _ => WindowSpec.argument_of_reads hreads
  simp only [Computes, evaluate_wider hr h hreads, htype]

/-- A window column is appended exactly where its name is new and the window computes its cells. -/
theorem append_iff : append r spec = .ok s ↔ spec.columnName ∉ r.names ∧
    ∃ type cells, Computes r spec type cells ∧ Relation.Appended r (spec.column type) cells s := by
  unfold append
  constructor
  · intro h
    by_cases hcontains : r.schema.contains spec.columnName = true
    · simp [hcontains] at h
    · rw [if_neg hcontains] at h
      obtain ⟨values, hvalues, h⟩ := Result.bind_eq_ok.mp h
      obtain ⟨type, htype, h⟩ := Result.bind_eq_ok.mp h
      obtain ⟨_, cells, hnew, hcells, happended⟩ := Relation.withColumn_iff.mp h
      exact ⟨hnew, type, cells, ⟨values, hvalues, htype, hcells⟩, happended⟩
  · rintro ⟨hnew, type, cells, ⟨values, hvalues, htype, hcells⟩, happended⟩
    simp only [Schema.contains_eq_false hnew, hvalues, htype, Bool.false_eq_true, if_false,
      Result.ok_bind]
    exact Relation.withColumn_iff.mpr ⟨spec.columnName_ne, cells, hnew, hcells, happended⟩

theorem exists_append (hnew : spec.columnName ∉ r.names) (h : Computes r spec type cells) :
    ∃ s, append r spec = .ok s ∧ Relation.Appended r (spec.column type) cells s := by
  obtain ⟨s, happended⟩ := r.exists_appended (c := spec.column type) hnew h.length
  exact ⟨s, append_iff.mpr ⟨hnew, type, cells, h, happended⟩, happended⟩

/-- How a value of a window stands in its column: as it is, or, where a shift falls back to a whole
number among doubles, as the double. -/
inductive Entered (function : WindowFunction) (type : ColumnType) : Value → Value → Prop
  | same (v : Value) : Entered function type v v
  | widened {n : ℤ} {x : Binary64} (fallback : function.fallback? = some (.int n))
    (doubles : type = .float) (reached : Binary64.ofInt? n = some x) :
    Entered function type (.int n) (.float x)

/-- An appended column holds what its window has for the rows. -/
theorem column_of_append (hr : r.WellFormed) (h : append r spec = .ok s) :
    ∃ type values cells, evaluate r spec = .ok values ∧
      spec.function.outputType r.schema = .ok type ∧ s.column spec.columnName = .ok cells ∧
      List.Forall₂ (Entered spec.function type) values cells := by
  obtain ⟨-, type, cells, ⟨values, hvalues, htype, hcells⟩, happended⟩ := append_iff.mp h
  obtain ⟨frame, hv, -⟩ := Result.bind_eq_ok.mp hvalues
  have htyped := ((evaluate_yields hr hv htype).of_ok hvalues).1.typed
  refine ⟨type, values, cells, hvalues, htype, happended.column hr, ?_⟩
  refine List.forall₂_iff_get.mpr ⟨(Result.mapM_eq_ok.mp hcells).length_eq, fun i hi hi' => ?_⟩
  have hentered := (Result.mapM_eq_ok.mp hcells).get hi hi'
  rcases (Column.coerce_eq_ok hentered).2 with heq | ⟨hfloat, n, x, hn, hx, heq⟩
  · rw [heq]
    exact .same _
  · rw [heq, hn]
    refine .widened ?_ hfloat hx
    refine (htyped _ (List.get_mem values ⟨i, hi⟩)).elim (fun hconforms => ?_) fun h => hn ▸ h
    rw [hn, show type = ColumnType.float from hfloat] at hconforms
    simp [Value.conforms] at hconforms

/-- A window that does not name the column of the one before it can be appended first, with the
same cells. -/
theorem append_swap {first second : WindowSpec} {s₁ s₁₂ : Relation} (hr : r.WellFormed)
    (hnames : first.columnName ≠ second.columnName)
    (hsecond : first.columnName ∉ second.reads) (h₁ : append r first = .ok s₁)
    (h₂ : append s₁ second = .ok s₁₂) :
    ∃ s₂ s₂₁, append r second = .ok s₂ ∧ append s₂ first = .ok s₂₁ ∧ s₁₂.SameColumns s₂₁ := by
  obtain ⟨hnew₁, type₁, cells₁, hcomputes₁, happended₁⟩ := append_iff.mp h₁
  obtain ⟨hnew₂, type₂, cells₂, hcomputes₂, happended₁₂⟩ := append_iff.mp h₂
  rw [happended₁.names, List.mem_append, not_or] at hnew₂
  have hreads₂ : ∀ name ∈ second.reads, name ∈ r.names := by
    intro name hname
    have hmem := hcomputes₂.reads name hname
    rw [happended₁.names, List.mem_append, List.mem_singleton] at hmem
    rcases hmem with hmem | rfl
    · exact hmem
    · exact absurd hname hsecond
  rw [computes_wider hr happended₁.widens hreads₂] at hcomputes₂
  obtain ⟨s₂, hs₂, happended₂⟩ := exists_append hnew₂.1 hcomputes₂
  have hnew₁' : first.columnName ∉ s₂.names := by
    rw [happended₂.names, List.mem_append, List.mem_singleton, not_or]
    exact ⟨hnew₁, hnames⟩
  obtain ⟨s₂₁, hs₂₁, happended₂₁⟩ := exists_append hnew₁'
    ((computes_wider hr happended₂.widens hcomputes₁.reads).mpr hcomputes₁)
  exact ⟨s₂, s₂₁, hs₂, hs₂₁, happended₁.swap hr happended₁₂ happended₂ happended₂₁
    (happended₁.wellFormed hr hcomputes₁.conforms) (happended₂.wellFormed hr hcomputes₂.conforms)⟩

/-- A list of windows keeps the relation, behind which it appends one column for each window. -/
theorem widens_of_windows {windows : List WindowSpec} (hr : r.WellFormed)
    (h : windows.foldlM append r = .ok s) : s.WellFormed ∧ Relation.Widens r s ∧
      s.names = r.names ++ windows.map WindowSpec.columnName := by
  induction windows generalizing r with
  | nil =>
    cases h
    exact ⟨hr, .refl _, by simp⟩
  | cons spec rest ih =>
    rw [List.foldlM_cons] at h
    obtain ⟨first, hfirst, h⟩ := Result.bind_eq_ok.mp h
    obtain ⟨-, type, cells, hcomputes, happended⟩ := append_iff.mp hfirst
    obtain ⟨hs, hwidens, hnames⟩ := ih (happended.wellFormed hr hcomputes.conforms) h
    refine ⟨hs, happended.widens.trans hwidens, ?_⟩
    rw [hnames, happended.names, List.map_cons, List.append_assoc]
    rfl

/-- Each column of a list of windows holds what its window has over the relation built before it. -/
theorem column_of_windows {windows : List WindowSpec} (hr : r.WellFormed)
    (h : windows.foldlM append r = .ok s) {i : ℕ} (hi : i < windows.length) :
    ∃ before type values cells, (windows.take i).foldlM append r = .ok before ∧
      evaluate before windows[i] = .ok values ∧
      windows[i].function.outputType before.schema = .ok type ∧
      s.column windows[i].columnName = .ok cells ∧
      List.Forall₂ (Entered windows[i].function type) values cells := by
  rw [← List.take_append_drop i windows, List.drop_eq_getElem_cons hi, List.foldlM_append] at h
  obtain ⟨before, hbefore, h⟩ := Result.bind_eq_ok.mp h
  rw [List.foldlM_cons] at h
  obtain ⟨after, hafter, h⟩ := Result.bind_eq_ok.mp h
  have hwell := (widens_of_windows hr hbefore).1
  obtain ⟨type, values, cells, hvalues, htype, hcolumn, hentered⟩ := column_of_append hwell hafter
  obtain ⟨-, kind, entered, hcomputes, happended⟩ := append_iff.mp hafter
  obtain ⟨-, hwidens, -⟩ := widens_of_windows (happended.wellFormed hwell hcomputes.conforms) h
  have hname : windows[i].columnName ∈ after.names := by
    simp [happended.names, WindowSpec.column]
  rw [← hwidens.column_eq (happended.wellFormed hwell hcomputes.conforms) hname] at hcolumn
  exact ⟨before, type, values, cells, hbefore, hvalues, htype, hcolumn, hentered⟩

end Window

namespace Query

/-- Windows are independent columns. Two of them that do not name each other's columns are appended
in either order or in neither, with the same values under every name. Any list of them keeps the
relation, whose names select it again, and each appended column holds what its window has over the
relation built by the windows before it. Only the whole number that a shift falls back to among
doubles stands there as a double. -/
theorem windows_independent {r : Relation} (hr : r.WellFormed) (fuel : ℕ) (settings : Settings) :
    (∀ first second : WindowSpec, first.columnName ≠ second.columnName →
      second.columnName ∉ first.reads → first.columnName ∉ second.reads →
      ((∃ s, evaluate fuel r none [first, second] settings = .ok s) ↔
        ∃ t, evaluate fuel r none [second, first] settings = .ok t) ∧
      ∀ s t, evaluate fuel r none [first, second] settings = .ok s →
        evaluate fuel r none [second, first] settings = .ok t → s.SameColumns t) ∧
    ∀ windows s, evaluate fuel r none windows settings = .ok s →
      s.select r.names = .ok r ∧ s.names = r.names ++ windows.map WindowSpec.columnName ∧
      ∀ i (hi : i < windows.length), ∃ before type values cells,
        evaluate fuel r none (windows.take i) settings = .ok before ∧
        Window.evaluate before windows[i] = .ok values ∧
        windows[i].function.outputType before.schema = .ok type ∧
        s.column windows[i].columnName = .ok cells ∧
        List.Forall₂ (Window.Entered windows[i].function type) values cells := by
  have hevaluate : ∀ windows, evaluate fuel r none windows settings =
      windows.foldlM Window.append r := fun windows => rfl
  have hpair : ∀ {first second s}, [first, second].foldlM Window.append r = .ok s →
      ∃ s₁, Window.append r first = .ok s₁ ∧ Window.append s₁ second = .ok s := by
    intro first second s h
    simpa [Result.bind_eq_ok] using h
  refine ⟨fun first second hnames hfirst hsecond => ⟨⟨?_, ?_⟩, ?_⟩, ?_⟩
  · rintro ⟨s, h⟩
    obtain ⟨s₁, h₁, h₂⟩ := hpair h
    obtain ⟨t₁, t, ht₁, ht, -⟩ := Window.append_swap hr hnames hsecond h₁ h₂
    exact ⟨t, by simp [hevaluate, ht₁, ht]⟩
  · rintro ⟨t, h⟩
    obtain ⟨t₁, h₁, h₂⟩ := hpair h
    obtain ⟨s₁, s, hs₁, hs, -⟩ := Window.append_swap hr hnames.symm hfirst h₁ h₂
    exact ⟨s, by simp [hevaluate, hs₁, hs]⟩
  · intro s t hs ht
    obtain ⟨s₁, h₁, h₂⟩ := hpair hs
    obtain ⟨t₁, t', ht₁, ht', hsame⟩ := Window.append_swap hr hnames hsecond h₁ h₂
    have ht'' : evaluate fuel r none [second, first] settings = .ok t' := by
      simp [hevaluate, ht₁, ht']
    cases ht.symm.trans ht''
    exact hsame
  · intro windows s h
    obtain ⟨-, hwidens, hnames⟩ := Window.widens_of_windows hr h
    exact ⟨hwidens.select_eq hr, hnames, fun i hi => Window.column_of_windows hr h hi⟩

/-- The places of the results in their teams. -/
def places : WindowSpec := ⟨.rowNumber, ["team"], Arrangement.bestFirst, none, none⟩

theorem windows_independent_teamResults :
    Arrangement.teamResults.WellFormed ∧
    Window.teamTotals.columnName ≠ places.columnName ∧
    places.columnName ∉ Window.teamTotals.reads ∧ Window.teamTotals.columnName ∉ places.reads ∧
    ∃ s t, evaluate 0 Arrangement.teamResults none [Window.teamTotals, places] .defaults = .ok s ∧
      evaluate 0 Arrangement.teamResults none [places, Window.teamTotals] .defaults = .ok t ∧
      s.SameColumns t ∧ s.select Arrangement.teamResults.names = .ok Arrangement.teamResults := by
  obtain ⟨hpairs, hlists⟩ :=
    windows_independent (r := Arrangement.teamResults) (by decide) 0 .defaults
  have hnames : Window.teamTotals.columnName ≠ places.columnName := by decide
  have hfirst : places.columnName ∉ Window.teamTotals.reads := by decide
  have hsecond : Window.teamTotals.columnName ∉ places.reads := by decide
  obtain ⟨hiff, hsame⟩ := hpairs Window.teamTotals places hnames hfirst hsecond
  have hnamed : (evaluate 0 Arrangement.teamResults none [Window.teamTotals, places] .defaults).map
      Relation.names = .ok ["team", "score", "sum", "row_number"] := by cbv
  obtain ⟨s, hs, -⟩ := Result.map_eq_ok.mp hnamed
  obtain ⟨t, ht⟩ := hiff.mp ⟨s, hs⟩
  exact ⟨by decide, hnames, hfirst, hsecond, s, t, hs, ht, hsame s t hs ht, (hlists _ s hs).1⟩

theorem height_named : "height" ≠ "" := by decide

/-- One height. -/
def heights : Relation := ⟨⟨[⟨"height", .float, height_named⟩], by decide⟩, [[.float (.number 1)]]⟩

/-- The height before, or a whole number that no double reaches exactly. -/
def earlier : WindowSpec :=
  ⟨.lag "height" 1 (.int 9007199254740993), [], [⟨"height", .asc, .last⟩], none, none⟩

/-- The fallback of a shift does not stand in its column as the window has it. -/
theorem windows_not_entered_unchanged :
    heights.WellFormed ∧ ¬ ∀ windows s, evaluate 0 heights none windows .defaults = .ok s →
      ∀ i (hi : i < windows.length), ∃ before values cells,
        evaluate 0 heights none (windows.take i) .defaults = .ok before ∧
        Window.evaluate before windows[i] = .ok values ∧
        s.column windows[i].columnName = .ok cells ∧
        List.Forall₂ (fun v w => v.same w = true) values cells := by
  have hvalues : Window.evaluate heights earlier = .ok [.int 9007199254740993] := by cbv
  have hnearest : Binary64.ofInt? 9007199254740993 = some (.number 9007199254740992) := by
    decide +kernel
  have hcomputes : Window.Computes heights earlier .float [.float (.number 9007199254740992)] :=
    ⟨_, hvalues, rfl, by simp [Column.coerce, WindowSpec.column, hnearest]⟩
  obtain ⟨s, hs, happended⟩ := Window.exists_append (by decide) hcomputes
  have hcolumn := happended.column (by decide)
  refine ⟨by decide, fun hsame => ?_⟩
  obtain ⟨before, values, cells, hbefore, hwindow, hcells, hall⟩ :=
    hsame [earlier] s (by simp [evaluate, resolveIfAny, hs]) 0 (by simp)
  cases hbefore
  cases hwindow.symm.trans hvalues
  cases hcells.symm.trans hcolumn
  revert hall
  decide

end Query
end OrderedRelations
