import OrderedRelations.Proofs.Hierarchy.JoinPath
import OrderedRelations.Proofs.Hierarchy.Levels
import OrderedRelations.Proofs.Relation.Extension

/-!
# Resolving a hierarchy of joins

Each entry of a frontier stands for one join path: its row is the last one of the path and its
chain has the identity keys along it. One round of expansion turns the entries of the paths at a
depth into those of the next depth, so resolving lists the join paths, level by level.
-/

namespace OrderedRelations.Hierarchy

variable (base : Relation) (test : Row → Result Bool) (parents children cycleKey : List String)

/-- The row at the end of a path. -/
def lastRow (path : List ℕ) : List Value := (path.getLast?.map base.valuesAt).getD []

/-- The frontier entry that a path leads to. -/
def lineageOf (path : List ℕ) : Lineage := ⟨lastRow base path, path.map (base.cells cycleKey)⟩

/-- What a resolution lists for a path: its last row, then its depth and the text of its keys
where columns for them are asked for. -/
def listedRow (depthColumn pathColumn : Option String) (path : List ℕ) : List Value :=
  lastRow base path ++ (depthColumn.toList.map fun _ => .int (path.length - 1 : ℕ)) ++
    pathColumn.toList.map fun _ => .text (pathText (path.map (base.cells cycleKey)))

variable {base test parents children cycleKey}

/-- Joining one row of the base finds the rows that it joins, in order. -/
theorem joinRow_eq (hbase : base.WellFormed) (hparents : ∀ name ∈ parents, name ∈ base.names)
    (hchildren : ∀ name ∈ children, name ∈ base.names) {i : ℕ} (hi : i < base.size) :
    joinRow parents children base (base.row (base.valuesAt i)) =
      .ok (((List.range base.size).filter fun j => decide (Joins base parents children i j)).map
        base.valuesAt) := by
  have hkey : valuesOf (base.row (base.valuesAt i)) parents = .ok (base.cells parents i) :=
    hbase.valuesOf_row hparents (Relation.valuesAt_mem hi)
  by_cases hnull : (base.cells parents i).any Value.isNull = true
  · have hnone : ∀ j, ¬ Joins base parents children i j := by
      rintro j ⟨hall, -⟩
      obtain ⟨v, hv, hvnull⟩ := List.any_eq_true.mp hnull
      simp [hall v hv] at hvnull
    simp only [joinRow, hkey, Result.ok_bind, hnull, if_true]
    simp [hnone]
  · have hall : ∀ v ∈ base.cells parents i, v.isNull = false := by
      simpa [List.any_eq_true] using hnull
    have hjoins : ∀ j, decide (Joins base parents children i j) =
        Value.sameKeys (base.cells children j) (base.cells parents i) := fun j => by
      rw [Bool.eq_iff_iff, decide_eq_true_iff]
      exact and_iff_right hall
    have hkeep : Relation.keep (fun values => valuesOf (base.row values) children >>= fun other =>
          pure (Value.sameKeys other (base.cells parents i))) base.rows =
        .ok (base.rows.filter fun values =>
          Value.sameKeys (children.map (base.schema.cell values)) (base.cells parents i)) := by
      refine Result.keep_eq_filter fun values hvalues => ?_
      rw [hbase.valuesOf_row hchildren hvalues]
      rfl
    rw [Relation.filter_rows] at hkeep
    simp only [joinRow, hkey, Result.ok_bind, hnull, Bool.false_eq_true, if_false, hkeep, hjoins]
    rfl

/-- Of the rows that the end of a path joins, those of a new identity lead to its extensions. -/
theorem adopt_joined {places : List ℕ} (hplaces : cycleKey.mapM base.schema.indexOf = .ok places)
    {path : List ℕ} {i : ℕ} (hlast : path.getLast? = some i) :
    adopt places (lineageOf base cycleKey path)
        (((List.range base.size).filter fun j => decide (Joins base parents children i j)).map
          base.valuesAt) =
      (extensions base parents children cycleKey path).map (lineageOf base cycleKey) := by
  have hkeys : ∀ j, keyOf places (base.valuesAt j) = base.cells cycleKey j :=
    fun j => Schema.keyOf_places hplaces (base.valuesAt j)
  have hnew : ∀ j, (!onChain (path.map (base.cells cycleKey)) (base.cells cycleKey j)) =
      !path.any fun a => sameIdentity base cycleKey a j := fun j => by
    rw [onChain, List.any_map]
    rfl
  have hfilter :
      ((List.range base.size).filter fun j => decide (Joins base parents children i j)).filter
        (fun j => !onChain (path.map (base.cells cycleKey)) (base.cells cycleKey j)) =
      successors base parents children cycleKey path i := by
    simp only [List.filter_filter, successors, hnew, Bool.and_comm]
  rw [adopt, List.filter_map, List.map_map, extensions, hlast, List.map_map, ← hfilter]
  simp only [Function.comp_def, lineageOf, hkeys]
  refine List.map_congr_left fun j _ => ?_
  simp [lastRow]

/-- Expanding the entry of a path gives the entries of its extensions. -/
theorem expand_lineageOf (hbase : base.WellFormed) (hparents : ∀ name ∈ parents, name ∈ base.names)
    (hchildren : ∀ name ∈ children, name ∈ base.names) {places : List ℕ}
    (hplaces : cycleKey.mapM base.schema.indexOf = .ok places) {spec : HierarchySpec}
    (hmember : spec.member = joinedMember parents children) {path : List ℕ}
    (hpath : JoinPath base test parents children cycleKey path) :
    expand spec base base.schema places (lineageOf base cycleKey path) =
      .ok ((extensions base parents children cycleKey path).map (lineageOf base cycleKey)) := by
  obtain ⟨i, hlast⟩ : ∃ i, path.getLast? = some i :=
    Option.isSome_iff_exists.mp (List.getLast?_isSome.mpr hpath.nonempty)
  have hi : i < base.size := hpath.inside i (List.mem_of_getLast? hlast)
  have hrow : (lineageOf base cycleKey path).row = base.valuesAt i := by
    simp [lineageOf, lastRow, hlast]
  have hjoin : joinRow parents children base (Relation.row ⟨base.schema, [base.valuesAt i]⟩
      (base.valuesAt i)) = _ := joinRow_eq hbase hparents hchildren hi
  rw [expand, hrow, hmember, joinedMember, List.mapM_cons, hjoin, ← adopt_joined hplaces hlast]
  simp [checkMember]

/-- The entries of the paths, depth by depth, are a run of the resolver. -/
theorem isRun_pathsAt (test : Row → Result Bool) (hbase : base.WellFormed)
    (hparents : ∀ name ∈ parents, name ∈ base.names)
    (hchildren : ∀ name ∈ children, name ∈ base.names) {places : List ℕ}
    (hplaces : cycleKey.mapM base.schema.indexOf = .ok places) {spec : HierarchySpec}
    (hmember : spec.member = joinedMember parents children) :
    IsRun (nextLevel spec base base.schema places) fun d =>
      (pathsAt base test parents children cycleKey d).map (lineageOf base cycleKey) := by
  refine ⟨rfl, fun d => ?_⟩
  have hexpand : ((pathsAt base test parents children cycleKey d).map
        (lineageOf base cycleKey)).mapM (expand spec base base.schema places) =
      .ok ((pathsAt base test parents children cycleKey d).map fun path =>
        (extensions base parents children cycleKey path).map (lineageOf base cycleKey)) := by
    rw [List.mapM_map]
    exact Result.mapM_eq_map fun path hp =>
      expand_lineageOf hbase hparents hchildren hplaces hmember (mem_pathsAt.mp hp).1
  rw [nextLevel, hexpand, Result.map_ok, pathsAt, List.flatMap_def, List.map_flatten, List.map_map]
  rfl

private theorem flatten_entries (m : ℕ) :
    ((List.range m).map fun d =>
        (pathsAt base test parents children cycleKey d).map (lineageOf base cycleKey)).flatten =
      ((List.range m).map (pathsAt base test parents children cycleKey)).flatten.map
        (lineageOf base cycleKey) := by
  rw [List.map_flatten, List.map_map]
  rfl

/-- The depths of the entries of the paths are the numbers of their steps. -/
theorem depths_pathsAt (m : ℕ) :
    depths ((List.range m).map fun d =>
        (pathsAt base test parents children cycleKey d).map (lineageOf base cycleKey)) =
      (((List.range m).map (pathsAt base test parents children cycleKey)).flatten.map fun path =>
        .int (path.length - 1 : ℕ)) := by
  have hchain : ∀ d, ∀ l ∈ (pathsAt base test parents children cycleKey d).map
      (lineageOf base cycleKey), l.chain.length = d + 1 := by
    intro d l hl
    obtain ⟨path, hp, rfl⟩ := List.mem_map.mp hl
    rw [lineageOf, List.length_map, (mem_pathsAt.mp hp).2]
  rw [depths_eq_map m hchain, flatten_entries, List.map_map]
  refine List.map_congr_left fun path _ => ?_
  simp [lineageOf]

theorem rows_pathsAt (m : ℕ) :
    ((List.range m).map fun d => (pathsAt base test parents children cycleKey d).map
        (lineageOf base cycleKey)).flatten.map Lineage.row =
      ((List.range m).map (pathsAt base test parents children cycleKey)).flatten.map
        (lastRow base) := by
  rw [flatten_entries, List.map_map]
  rfl

theorem paths_pathsAt (m : ℕ) :
    paths ((List.range m).map fun d => (pathsAt base test parents children cycleKey d).map
        (lineageOf base cycleKey)) =
      ((List.range m).map (pathsAt base test parents children cycleKey)).flatten.map fun path =>
        .text (pathText (path.map (base.cells cycleKey))) := by
  rw [paths, flatten_entries, List.map_map]
  rfl

/-- Every list that holds an anchor's rows starts the paths of one row. -/
theorem anchorWhere_eq (htest : ∀ values ∈ base.rows, ∃ b, test (base.row values) = .ok b) :
    anchorWhere test base = .ok (.relation ⟨base.schema,
      ((List.range base.size).filter (isAnchor base test)).map base.valuesAt⟩) := by
  have hkeep : Relation.keep (fun values => test (base.row values)) base.rows =
      .ok (base.rows.filter (passes base test)) := by
    refine Result.keep_eq_filter fun values hvalues => ?_
    obtain ⟨b, hb⟩ := htest values hvalues
    cases b <;> simp [passes, hb]
  rw [Relation.filter_rows] at hkeep
  simp only [anchorWhere, Relation.filter, hkeep, Result.ok_bind, Result.pure_eq_ok,
    Result.map_ok]
  rfl

/-- The columns asked for are new: the anchor is accepted. -/
theorem checkAnchor_eq {seed : Relation} {spec : HierarchySpec}
    (hkey : ∀ name ∈ spec.cycleKey, name ∈ seed.names)
    (hdepth : ∀ name ∈ spec.depthColumn, name ∉ seed.names)
    (hpath : ∀ name ∈ spec.pathColumn, name ∉ seed.names) :
    checkAnchor spec (.relation seed) = .ok seed := by
  have hmissing : (spec.cycleKey.filter fun name => !seed.schema.contains name) = [] := by
    rw [List.filter_eq_nil_iff]
    intro name hname
    simpa using Schema.contains_iff.mpr (hkey name hname)
  have houtput : ∀ column : Option String, (∀ name ∈ column, name ∉ seed.names) →
      checkOutput seed.schema column = .ok () := by
    intro column hnew
    cases column with
    | none => rfl
    | some name =>
      have hno : seed.schema.contains name = false := by
        rw [Bool.eq_false_iff]
        exact fun h => hnew name rfl (Schema.contains_iff.mp h)
      simp [checkOutput, hno]
  simp [checkAnchor, hmissing, houtput _ hdepth, houtput _ hpath]

/-- The entries of the anchor's rows are those of the paths of one row. -/
theorem start_eq {places : List ℕ} (hplaces : cycleKey.mapM base.schema.indexOf = .ok places) :
    ((((List.range base.size).filter (isAnchor base test)).map base.valuesAt).map fun row =>
        (⟨row, [keyOf places row]⟩ : Lineage)) =
      (pathsAt base test parents children cycleKey 0).map (lineageOf base cycleKey) := by
  rw [pathsAt, List.map_map, List.map_map]
  refine List.map_congr_left fun i _ => ?_
  simp only [Function.comp_apply, Schema.keyOf_places hplaces]
  rfl

/-- The rows of the result, with the columns asked for, are those listed for the paths. -/
theorem withColumns_eq (cycleKey : List String) (P : List (List ℕ))
    {depthColumn pathColumn : Option String}
    (hnew : (base.names ++ depthColumn.toList ++ pathColumn.toList).Nodup)
    (hnamed : "" ∉ depthColumn.toList ++ pathColumn.toList) :
    ∃ r : Relation,
      (withOptional ⟨base.schema, P.map (lastRow base)⟩ depthColumn .integer
          (P.map fun path => .int (path.length - 1 : ℕ)) >>= fun r =>
        withOptional r pathColumn .text
          (P.map fun path => .text (pathText (path.map (base.cells cycleKey))))) = .ok r ∧
      r.names = base.names ++ depthColumn.toList ++ pathColumn.toList ∧
      r.rows = P.map (listedRow base cycleKey depthColumn pathColumn) := by
  rw [List.mem_append, not_or] at hnamed
  obtain ⟨deeper, hdeeper, hnames⟩ := withOptional_map .integer P (lastRow base)
    (fun path => .int (path.length - 1 : ℕ)) (hnew.sublist (List.sublist_append_left _ _))
    hnamed.1 (by simp [Value.conforms])
  have hnew : (deeper.names ++ pathColumn.toList).Nodup := by rwa [hnames]
  obtain ⟨longer, hlonger, hnames'⟩ := withOptional_map .text P
    (fun path => lastRow base path ++ depthColumn.toList.map fun _ => .int (path.length - 1 : ℕ))
    (fun path => .text (pathText (path.map (base.cells cycleKey))))
    hnew hnamed.2 (by simp [Value.conforms])
  refine ⟨⟨longer, P.map (listedRow base cycleKey depthColumn pathColumn)⟩, ?_, ?_, rfl⟩
  · rw [hdeeper, Result.ok_bind, hlonger]
    rfl
  · rw [Relation.names, hnames', hnames]
    rfl

/-- Resolving an anchor of tested rows and a member that joins lists exactly the join paths: the
levels in order of depth, the paths of a level in strict lexicographic order of their positions,
and for each path its last row. -/
theorem resolve_joined (hbase : base.WellFormed)
    (htest : ∀ values ∈ base.rows, ∃ b, test (base.row values) = .ok b) {member : Member}
    (hmember : joined parents children = .ok member)
    (hparents : ∀ name ∈ parents, name ∈ base.names)
    (hchildren : ∀ name ∈ children, name ∈ base.names)
    (hkey : ∀ name ∈ cycleKey, name ∈ base.names) {depthColumn pathColumn : Option String}
    (hnew : (base.names ++ depthColumn.toList ++ pathColumn.toList).Nodup)
    (hnamed : "" ∉ depthColumn.toList ++ pathColumn.toList) {fuel : ℕ} (hfuel : base.size ≤ fuel) :
    ∃ (levels : List (List (List ℕ))) (r : Resolution),
      resolve fuel base ⟨anchorWhere test, member, cycleKey, 0, depthColumn, pathColumn⟩ 0 = .ok r ∧
      (∀ d path, path ∈ levels[d]?.getD [] ↔
        JoinPath base test parents children cycleKey path ∧ path.length = d + 1) ∧
      (∀ level ∈ levels, level ≠ [] ∧ level.Pairwise (· < ·)) ∧
      r.levelSizes = levels.map List.length ∧
      r.relation.names = base.names ++ depthColumn.toList ++ pathColumn.toList ∧
      r.relation.rows = levels.flatten.map (listedRow base cycleKey depthColumn pathColumn) := by
  obtain rfl : joinedMember parents children = member := by
    rw [joined] at hmember
    split at hmember
    · simp at hmember
    · exact Except.ok.inj hmember
  have hfresh : ∀ name ∈ depthColumn.toList ++ pathColumn.toList, name ∉ base.names := by
    intro name hname hold
    rw [List.append_assoc] at hnew
    exact (List.nodup_append.mp hnew).2.2 name hold name hname rfl
  obtain ⟨places, hplaces⟩ := Schema.exists_places hkey
  have hrun : IsRun (nextLevel ⟨anchorWhere test, joinedMember parents children, cycleKey, 0,
      depthColumn, pathColumn⟩ base base.schema places) _ :=
    isRun_pathsAt test hbase hparents hchildren hplaces rfl
  -- A path of `fuel + 1` rows would meet some row twice.
  have hend : (pathsAt base test parents children cycleKey fuel).map (lineageOf base cycleKey) =
      [] := by
    rw [List.map_eq_nil_iff, List.eq_nil_iff_forall_not_mem]
    intro path hp
    obtain ⟨hpath, hlen⟩ := mem_pathsAt.mp hp
    have hle := hpath.length_le hbase hkey
    omega
  obtain ⟨m, hlevels, hfull, hempty⟩ := hrun.levels_open hend
  obtain ⟨r, hr, hnames, hrows⟩ := withColumns_eq cycleKey
    ((List.range m).map (pathsAt base test parents children cycleKey)).flatten hnew hnamed
  refine ⟨(List.range m).map (pathsAt base test parents children cycleKey),
    ⟨r, ((List.range m).map (pathsAt base test parents children cycleKey)).map List.length⟩,
    ?_, ?_, ?_, rfl, hnames, hrows⟩
  · have hsizes : ((List.range m).map (pathsAt base test parents children cycleKey)).map
        List.length = ((List.range m).map fun d =>
          (pathsAt base test parents children cycleKey d).map (lineageOf base cycleKey)).map
            List.length := by
      simp
    rw [hsizes]
    refine resolve_eq_ok (anchorWhere_eq htest) (checkAnchor_eq hkey ?_ ?_) hplaces ?_ ?_
    · exact fun name h => hfresh name (List.mem_append_left _ (Option.mem_toList.mpr h))
    · exact fun name h => hfresh name (List.mem_append_right _ (Option.mem_toList.mpr h))
    · rw [start_eq hplaces]
      exact hlevels
    · rw [depths_pathsAt, rows_pathsAt, paths_pathsAt]
      exact hr
  · intro d path
    rw [← mem_pathsAt]
    by_cases hd : d < m
    · simp [hd]
    · have hnil := hempty d (by omega)
      rw [List.map_eq_nil_iff] at hnil
      simp [hd, hnil]
  · intro level hlevel
    obtain ⟨d, hd, rfl⟩ := List.mem_map.mp hlevel
    refine ⟨fun hnil => hfull d (List.mem_range.mp hd) ?_, pathsAt_pairwise_lt d⟩
    rw [hnil, List.map_nil]

/-- Four rows in a loop: the last one has the identity of the second. -/
def loopedStaff : Relation :=
  ⟨⟨[⟨"id", .integer, by decide⟩, ⟨"boss", .integer, by decide⟩], by decide⟩,
    [[.int 1, .null], [.int 2, .int 1], [.int 3, .int 2], [.int 2, .int 3]]⟩

/-- Those who have no boss. -/
def atTheTop (row : Row) : Result Bool := (row.get "boss").map Value.isNull

theorem resolve_joined_loopedStaff :
    ∃ (levels : List (List (List ℕ))) (r : Resolution),
      resolve 4 loopedStaff ⟨anchorWhere atTheTop, joinedMember ["id"] ["boss"], ["id"], 0,
        some "depth", none⟩ 0 = .ok r ∧
      (∀ d path, path ∈ levels[d]?.getD [] ↔
        JoinPath loopedStaff atTheTop ["id"] ["boss"] ["id"] path ∧ path.length = d + 1) ∧
      (∀ level ∈ levels, level ≠ [] ∧ level.Pairwise (· < ·)) ∧
      r.levelSizes = levels.map List.length ∧
      r.relation.names = ["id", "boss", "depth"] ∧
      r.relation.rows = levels.flatten.map (listedRow loopedStaff ["id"] (some "depth") none) := by
  have htest : ∀ values ∈ loopedStaff.rows, ∃ b, atTheTop (loopedStaff.row values) = .ok b := by
    simp only [loopedStaff, List.forall_mem_cons]
    exact ⟨⟨_, rfl⟩, ⟨_, rfl⟩, ⟨_, rfl⟩, ⟨_, rfl⟩, by simp⟩
  exact resolve_joined (by decide) htest rfl (by decide) (by decide) (by decide) (by decide)
    (by decide) (by decide)

end OrderedRelations.Hierarchy
