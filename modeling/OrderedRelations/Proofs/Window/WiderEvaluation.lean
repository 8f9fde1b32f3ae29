import OrderedRelations.Proofs.Relation.Widening
import OrderedRelations.Proofs.Window.WindowSafety

/-!
# Evaluation over wider relations

A window function reads a relation only under the names of its argument, its partition columns and
its order columns. Columns behind these change nothing, neither its answer nor its failure.
-/

namespace OrderedRelations

/-- The columns that a specification names. -/
def WindowSpec.reads (spec : WindowSpec) : List String :=
  spec.function.column?.toList ++ spec.partitionBy ++ spec.orderBy.map OrderKey.column

namespace WindowSpec

variable {spec : WindowSpec} {names : List String}

theorem partitionBy_of_reads (h : ∀ name ∈ spec.reads, name ∈ names) :
    ∀ name ∈ spec.partitionBy, name ∈ names := fun name hname => h name (by simp [reads, hname])

theorem orderBy_of_reads (h : ∀ name ∈ spec.reads, name ∈ names) :
    ∀ k ∈ spec.orderBy, k.column ∈ names := fun k hk =>
  h _ (List.mem_append_right _ (List.mem_map.mpr ⟨k, hk, rfl⟩))

theorem argument_of_reads (h : ∀ name ∈ spec.reads, name ∈ names) {name : String}
    (hname : spec.function.column? = some name) : name ∈ names :=
  h name (by simp [reads, hname])

end WindowSpec

namespace Relation.Widens

variable {r wide : Relation} {orderBy : List OrderKey}

section Ordered

variable (hr : r.WellFormed) (h : Widens r wide) (ho : ∀ k ∈ orderBy, k.column ∈ r.names)
include hr h ho

theorem keysBefore_eq : wide.keysBefore orderBy = r.keysBefore orderBy := by
  funext i j
  induction orderBy with
  | nil => rfl
  | cons k rest ih =>
    have hcell : wide.sortCell k.column = r.sortCell k.column :=
      funext fun i => by rw [sortCell, sortCell, h.cell_eq hr (ho k (by simp))]
    rw [keysBefore, keysBefore, hcell, ih fun l hl => ho l (by simp [hl])]

theorem precedes_iff (i j : ℕ) : wide.Precedes orderBy i j ↔ r.Precedes orderBy i j := by
  rw [Precedes, Precedes, h.keysBefore_eq hr ho]

theorem naNFree_iff : wide.NaNFree orderBy ↔ r.NaNFree orderBy := by
  simp only [NaNFree, h.size_eq]
  exact forall₂_congr fun k hk => by simp only [h.cell_eq hr (ho k hk)]

theorem comparable_iff : wide.Comparable orderBy ↔ r.Comparable orderBy := by
  simp only [Comparable, h.size_eq]
  exact forall₂_congr fun k hk => by simp only [h.cell_eq hr (ho k hk)]

end Ordered
end Relation.Widens

namespace Window

variable {r wide : Relation} {spec : WindowSpec} {positions : List ℕ}

/-- An accepted specification names columns only. -/
theorem reads_of_validate {schema : Schema} {frame : Option FrameSpec}
    (h : validate schema spec = .ok frame) : ∀ name ∈ spec.reads, name ∈ schema.names := by
  have hvalid := validate_eq_ok h
  intro name hname
  rcases List.mem_append.mp hname with hname | hname
  · rcases List.mem_append.mp hname with hname | hname
    · exact hvalid.argument name (Option.mem_toList.mp hname)
    · exact hvalid.partitionColumns name hname
  · obtain ⟨k, hk, rfl⟩ := List.mem_map.mp hname
    exact hvalid.orderColumns k hk

section Schemas

variable {schema longer : Schema}

theorem requireNumeric_wider (h : schema.columns <+: longer.columns) {function : WindowFunction}
    (hargument : ∀ name, function.column? = some name → name ∈ schema.names) :
    requireNumeric longer function = requireNumeric schema function := by
  have htype : ∀ name, function.column? = some name → longer.typeOf name = schema.typeOf name :=
    fun name hname => Schema.typeOf_wider h (hargument name hname)
  unfold requireNumeric
  split
  · simp only [requireNumeric.check, htype _ rfl]
  · simp only [requireNumeric.check, htype _ rfl]
  · cases hcolumn : function.column? with
    | none => rfl
    | some name => simp only [htype name hcolumn]

theorem checkRangeOffsets_wider (h : schema.columns <+: longer.columns)
    (horder : ∀ k ∈ spec.orderBy, k.column ∈ schema.names) (frame : FrameSpec) :
    checkRangeOffsets longer spec frame = checkRangeOffsets schema spec frame := by
  unfold checkRangeOffsets
  split
  · rename_i k hk
    rw [Schema.typeOf_wider h (horder k (by simp [hk]))]
  · rfl

theorem outputType_wider (h : schema.columns <+: longer.columns) {function : WindowFunction}
    (hargument : ∀ name, function.column? = some name → name ∈ schema.names) :
    function.outputType longer = function.outputType schema := by
  cases function with
  | aggregate kind column =>
    have htype := Schema.typeOf_wider h (hargument column rfl)
    cases kind <;> simp only [WindowFunction.outputType, htype]
  | lag column _ _ | lead column _ _ | firstValue column | lastValue column =>
    exact Schema.typeOf_wider h (hargument column rfl)
  | _ => rfl

/-- A specification whose columns are there is judged by them alone. -/
theorem validate_wider (h : schema.columns <+: longer.columns)
    (hreads : ∀ name ∈ spec.reads, name ∈ schema.names) :
    validate longer spec = validate schema spec := by
  have hp := WindowSpec.partitionBy_of_reads hreads
  have ho := WindowSpec.orderBy_of_reads hreads
  have hcolumns := Arrangement.checkColumns_eq_ok hp ho
  have hcolumns' : Arrangement.checkColumns longer spec.partitionBy spec.orderBy = .ok () :=
    Arrangement.checkColumns_eq_ok (fun name hname => Schema.mem_names_wider h (hp name hname))
      fun k hk => Schema.mem_names_wider h (ho k hk)
  have hnumeric := requireNumeric_wider h fun _ hname => WindowSpec.argument_of_reads hreads hname
  simp only [validate, hcolumns, hcolumns', hnumeric, checkRangeOffsets_wider h ho]

end Schemas

section Rows

variable (hr : r.WellFormed) (h : Relation.Widens r wide)
include hr h

theorem positions_wider {partitionBy : List String} {orderBy : List OrderKey}
    (hp : ∀ name ∈ partitionBy, name ∈ r.names) (ho : ∀ k ∈ orderBy, k.column ∈ r.names) :
    Arrangement.positions wide partitionBy orderBy =
      Arrangement.positions r partitionBy orderBy := by
  have hp' : ∀ name ∈ partitionBy, name ∈ wide.names := fun name hname => h.mem_names (hp name hname)
  have ho' : ∀ k ∈ orderBy, k.column ∈ wide.names := fun k hk => h.mem_names (ho k hk)
  have hcells : ∀ k ∈ orderBy, wide.cell k.column = r.cell k.column :=
    fun k hk => funext fun i => h.cell_eq hr (ho k hk) i
  have hcomparable := h.comparable_iff hr ho
  by_cases hc : r.Comparable orderBy
  · have hkeys : wide.cells partitionBy = r.cells partitionBy := funext (h.cells_eq hr hp)
    have hkeyed : (orderBy.map fun k => (k, wide.sortColumn k.column)) =
        orderBy.map fun k => (k, r.sortColumn k.column) := by
      refine List.map_congr_left fun k hk => ?_
      have hsort : wide.sortCell k.column = r.sortCell k.column :=
        funext fun i => by rw [Relation.sortCell, Relation.sortCell, hcells k hk]
      rw [Relation.sortColumn, Relation.sortColumn, h.size_eq, hsort]
    rw [Arrangement.positions_eq_passed hp ho hc,
      Arrangement.positions_eq_passed hp' ho' (hcomparable.mpr hc), Arrangement.passed,
      Arrangement.passed, Relation.groups, Relation.groups, h.size_eq, hkeys, hkeyed]
  · rw [Arrangement.positions_eq_error hp ho hc,
      Arrangement.positions_eq_error hp' ho' (hcomparable.not.mpr hc)]

variable (hin : ∀ i ∈ positions, i < r.size)
include hin

theorem columnOf_wider {name : String} (hname : name ∈ r.names) :
    columnOf wide.schema name (Arrangement.rowsAt wide positions) =
      columnOf r.schema name (Arrangement.rowsAt r positions) := by
  have hin' : ∀ i ∈ positions, i < wide.size := fun i hi => h.size_eq ▸ hin i hi
  rw [columnOf_eq hin hname, columnOf_eq hin' (h.mem_names hname)]
  exact congrArg _ (List.map_congr_left fun i _ => h.cell_eq hr hname i)

omit hr in
theorem length_rowsAt_wider :
    (Arrangement.rowsAt wide positions).length = (Arrangement.rowsAt r positions).length := by
  have hin' : ∀ i ∈ positions, i < wide.size := fun i hi => h.size_eq ▸ hin i hi
  rw [FrameExtent.rowsAt_eq_map hin, FrameExtent.rowsAt_eq_map hin', List.length_map,
    List.length_map]

theorem orderValues_wider {orderBy : List OrderKey} (ho : ∀ k ∈ orderBy, k.column ∈ r.names) :
    (Arrangement.rowsAt wide positions).mapM (FrameExtent.orderValues wide.schema orderBy) =
      (Arrangement.rowsAt r positions).mapM (FrameExtent.orderValues r.schema orderBy) := by
  have hin' : ∀ i ∈ positions, i < wide.size := fun i hi => h.size_eq ▸ hin i hi
  rw [FrameExtent.keys_eq hin ho, FrameExtent.keys_eq hin' fun k hk => h.mem_names (ho k hk)]
  refine congrArg _ (List.map_congr_left fun i _ => List.map_congr_left fun k hk => ?_)
  exact h.cell_eq hr (ho k hk) i

theorem spans_wider {orderBy : List OrderKey} (ho : ∀ k ∈ orderBy, k.column ∈ r.names)
    (frame : FrameSpec) :
    FrameExtent.spans wide.schema orderBy (Arrangement.rowsAt wide positions) frame =
      FrameExtent.spans r.schema orderBy (Arrangement.rowsAt r positions) frame := by
  have hlength := length_rowsAt_wider h hin
  have hkeys := orderValues_wider hr h hin ho
  cases hunit : frame.unit with
  | rows => simp only [FrameExtent.spans, hunit, hlength]
  | range =>
    simp only [FrameExtent.spans, hunit, hlength, hkeys]
    refine bind_congr fun keys => bind_congr fun peers => ?_
    split
    · rename_i k rest _
      rw [Schema.typeOf_wider h.columns (ho k (by simp))]
    · rfl

/-- The rows of a partition have the same values with further cells behind their own. -/
theorem evaluateRows_wider (hreads : ∀ name ∈ spec.reads, name ∈ r.names) (frame : FrameSpec) :
    evaluateRows wide.schema spec frame (Arrangement.rowsAt wide positions) =
      evaluateRows r.schema spec frame (Arrangement.rowsAt r positions) := by
  have ho := WindowSpec.orderBy_of_reads hreads
  have hlength := length_rowsAt_wider h hin
  have hspans := spans_wider hr h hin ho frame
  have hpeers : peersOf wide.schema spec.orderBy (Arrangement.rowsAt wide positions) =
      peersOf r.schema spec.orderBy (Arrangement.rowsAt r positions) := by
    simp only [peersOf, orderValues_wider hr h hin ho]
  have hcolumn : ∀ name, spec.function.column? = some name →
      columnOf wide.schema name (Arrangement.rowsAt wide positions) =
        columnOf r.schema name (Arrangement.rowsAt r positions) := fun name hname =>
    columnOf_wider hr h hin (WindowSpec.argument_of_reads hreads hname)
  unfold evaluateRows
  cases hfunction : spec.function with
  | rowNumber | ntile _ _ => simp only [hlength]
  | rank | denseRank => simp only [hpeers]
  | lag column _ _ | lead column _ _ => simp only [hcolumn column (by rw [hfunction]; rfl)]
  | firstValue column | lastValue column =>
    simp only [hcolumn column (by rw [hfunction]; rfl), hspans]
  | aggregate kind column => simp only [hcolumn column (by rw [hfunction]; rfl), hspans]
  | countRows => simp only [hlength, hspans]

end Rows

/-- Further columns change nothing for a specification whose columns are there without them. -/
theorem evaluate_wider (hr : r.WellFormed) (h : Relation.Widens r wide)
    (hreads : ∀ name ∈ spec.reads, name ∈ r.names) : evaluate wide spec = evaluate r spec := by
  have hp := WindowSpec.partitionBy_of_reads hreads
  have ho := WindowSpec.orderBy_of_reads hreads
  rw [evaluate, evaluate, validate_wider h.columns hreads, positions_wider hr h hp ho, h.size_eq]
  refine bind_congr fun frame => ?_
  cases hparts : Arrangement.positions r spec.partitionBy spec.orderBy with
  | error e => rfl
  | ok parts =>
    have heach : ∀ p ∈ parts,
        evaluateRows wide.schema spec (frame.getD spec.defaultFrame)
            (Arrangement.rowsAt wide p.positions) =
          evaluateRows r.schema spec (frame.getD spec.defaultFrame)
            (Arrangement.rowsAt r p.positions) := fun p hmem =>
      evaluateRows_wider hr h (Arrangement.lt_size_of_positions hparts hmem) hreads _
    rw [Result.ok_bind, Result.ok_bind]
    refine congrArg (· >>= _) (Result.mapM_congr (List.forall₂_same.mpr fun p hmem => ?_))
    rw [heach p hmem]

end Window
end OrderedRelations
