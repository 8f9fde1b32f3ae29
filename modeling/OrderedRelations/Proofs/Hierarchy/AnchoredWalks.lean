import OrderedRelations.Proofs.Hierarchy.DepthCap
import OrderedRelations.Proofs.Hierarchy.ParentWalk

/-!
# Resolving along parent walks

A hierarchy that joins rows to their parent rows lists a row once for each anchor on its parent
walk. With one anchor it lists every row below it once, whatever cycles there are; a forest that is
anchored at its roots is listed as it is, in another order.
-/

namespace OrderedRelations.Hierarchy

/-- The rows at the ends of paths. -/
def ends (paths : List (List ℕ)) : List ℕ := paths.filterMap List.getLast?

section Listing

variable {base : Relation} {test : Row → Result Bool} {parents children cycleKey : List String}

theorem pathsAt_eq_nil (hbase : base.WellFormed) (hkey : ∀ name ∈ cycleKey, name ∈ base.names)
    {d : ℕ} (hd : base.size ≤ d) : pathsAt base test parents children cycleKey d = [] := by
  rw [List.eq_nil_iff_forall_not_mem]
  intro path hp
  obtain ⟨hpath, hlength⟩ := mem_pathsAt.mp hp
  have hle := hpath.length_le hbase hkey
  omega

/-- The paths of different depths are different, and those of one depth too. -/
theorem nodup_pathsAt (m : ℕ) :
    ((List.range m).map (pathsAt base test parents children cycleKey)).flatten.Nodup := by
  rw [List.nodup_flatten, List.pairwise_map]
  constructor
  · intro level hlevel
    obtain ⟨d, -, rfl⟩ := List.mem_map.mp hlevel
    exact (pathsAt_pairwise_lt d).imp fun h => h.ne
  · refine List.pairwise_lt_range.imp fun hlt path hp hq => ?_
    have hlength := (mem_pathsAt.mp hp).2.symm.trans (mem_pathsAt.mp hq).2
    omega

theorem mem_flatten_pathsAt {m : ℕ}
    (hend : ∀ d, m ≤ d → pathsAt base test parents children cycleKey d = []) {path : List ℕ} :
    path ∈ ((List.range m).map (pathsAt base test parents children cycleKey)).flatten ↔
      JoinPath base test parents children cycleKey path := by
  rw [List.mem_flatten]
  constructor
  · rintro ⟨level, hlevel, hp⟩
    obtain ⟨d, -, rfl⟩ := List.mem_map.mp hlevel
    exact (mem_pathsAt.mp hp).1
  · intro h
    have hpos := List.length_pos_of_ne_nil h.nonempty
    have hp : path ∈ pathsAt base test parents children cycleKey (path.length - 1) :=
      mem_pathsAt.mpr ⟨h, by omega⟩
    refine ⟨_, List.mem_map.mpr ⟨path.length - 1, List.mem_range.mpr ?_, rfl⟩, hp⟩
    by_contra hlt
    rw [hend _ (by omega)] at hp
    cases hp

/-- A hierarchy of joins without a cap lists the paths of every depth, and no path is left. -/
theorem resolve_pathsAt (hbase : base.WellFormed)
    (htest : ∀ values ∈ base.rows, ∃ b, test (base.row values) = .ok b)
    (hparents : ∀ name ∈ parents, name ∈ base.names)
    (hchildren : ∀ name ∈ children, name ∈ base.names)
    (hkey : ∀ name ∈ cycleKey, name ∈ base.names) {depthColumn pathColumn : Option String}
    (hnew : (base.names ++ depthColumn.toList ++ pathColumn.toList).Nodup)
    (hnamed : "" ∉ depthColumn.toList ++ pathColumn.toList) {fuel : ℕ} (hfuel : base.size ≤ fuel) :
    ∃ m r, resolve fuel base ⟨anchorWhere test, joinedMember parents children, cycleKey, 0,
        depthColumn, pathColumn⟩ 0 = .ok r ∧
      r.relation.names = base.names ++ depthColumn.toList ++ pathColumn.toList ∧
      r.relation.rows = ((List.range m).map (pathsAt base test parents children cycleKey)).flatten.map
        (listedRow base cycleKey depthColumn pathColumn) ∧
      ∀ d, m ≤ d → pathsAt base test parents children cycleKey d = [] := by
  obtain ⟨places, hplaces⟩ := Schema.exists_places hkey
  rw [List.append_assoc, List.nodup_append] at hnew
  obtain ⟨-, hdistinct, hapart⟩ := hnew
  have hfresh : ∀ name ∈ depthColumn.toList ++ pathColumn.toList, name ∉ base.names :=
    fun name hname hold => hapart name hold name hname rfl
  have hrun : IsRun (nextLevel ⟨anchorWhere test, joinedMember parents children, cycleKey, 0,
      depthColumn, pathColumn⟩ base base.schema places) _ :=
    isRun_pathsAt test hbase hparents hchildren hplaces rfl
  have hend : (pathsAt base test parents children cycleKey fuel).map (lineageOf base cycleKey) =
      [] := by
    rw [pathsAt_eq_nil hbase hkey hfuel, List.map_nil]
  obtain ⟨m, hlevels, -, hempty⟩ := hrun.levels_open hend
  obtain ⟨r, hr, hnames, hrows⟩ := withColumns_eq cycleKey
    ((List.range m).map (pathsAt base test parents children cycleKey)).flatten
    (by rw [List.append_assoc, List.nodup_append]; exact ⟨base.schema.distinct, hdistinct, hapart⟩)
    hnamed
  refine ⟨m, ⟨r, _⟩, resolve_eq_ok (anchorWhere_eq htest) (checkAnchor_eq hkey ?_ ?_) hplaces
    (by rw [start_eq hplaces]; exact hlevels) ?_, hnames, hrows,
    fun d hd => List.map_eq_nil_iff.mp (hempty d hd)⟩
  · exact fun name h => hfresh name (List.mem_append_left _ (Option.mem_toList.mpr h))
  · exact fun name h => hfresh name (List.mem_append_right _ (Option.mem_toList.mpr h))
  · rw [depths_pathsAt, rows_pathsAt, paths_pathsAt]
    exact hr

end Listing

theorem countP_eq_indices (p : ℕ → Bool) (walk : List ℕ) :
    walk.countP p = ((List.range walk.length).filter fun d => walk[d]?.any p).length := by
  induction walk with
  | nil => rfl
  | cons a walk ih =>
    rw [List.length_cons, List.range_succ_eq_map, List.filter_cons, List.filter_map]
    cases hp : p a <;> simp [hp, ih, Function.comp_def]

section Walks

variable {base : Relation} {test : Row → Result Bool} {ids parents : List String}

/-- The ways from an anchor on a walk down to the walk's start. -/
def waysDown (base : Relation) (test : Row → Result Bool) (walk : List ℕ) : List (List ℕ) :=
  ((List.range walk.length).filter fun d => walk[d]?.any (isAnchor base test)).map fun d =>
    (walk.take (d + 1)).reverse

theorem length_waysDown (walk : List ℕ) :
    (waysDown base test walk).length = walk.countP (isAnchor base test) := by
  rw [waysDown, List.length_map, countP_eq_indices]

theorem nodup_waysDown (walk : List ℕ) : (waysDown base test walk).Nodup := by
  refine List.Nodup.map_on ?_ (List.nodup_range.filter _)
  intro d hd e he hways
  have hd := List.mem_range.mp (List.mem_of_mem_filter hd)
  have he := List.mem_range.mp (List.mem_of_mem_filter he)
  have hlength := congrArg List.length hways
  rw [List.length_reverse, List.length_reverse, List.length_take, List.length_take] at hlength
  omega

theorem mem_waysDown {walk path : List ℕ} :
    path ∈ waysDown base test walk ↔ path ≠ [] ∧ path.reverse <+: walk ∧
      ∀ a ∈ path.head?, isAnchor base test a = true := by
  have hlast : ∀ d < walk.length, (walk.take (d + 1)).getLast? = walk[d]? := by
    intro d hd
    simp [List.getLast?_take, hd]
  simp only [waysDown, List.mem_map, List.mem_filter, List.mem_range]
  constructor
  · rintro ⟨d, ⟨hd, hanchor⟩, rfl⟩
    refine ⟨?_, by simpa using List.take_prefix _ _, fun a ha => ?_⟩
    · intro hnil
      have hlength := congrArg List.length hnil
      rw [List.length_reverse, List.length_take, List.length_nil] at hlength
      omega
    · rw [List.head?_reverse, hlast d hd] at ha
      simpa [Option.mem_def.mp ha] using hanchor
  · rintro ⟨hne, hle, hanchor⟩
    have hpos : 0 < path.length := List.length_pos_of_ne_nil hne
    have hlength : path.length ≤ walk.length := by simpa using hle.length_le
    have htake : walk.take (path.length - 1 + 1) = path.reverse := by
      rw [Nat.sub_add_cancel hpos, List.prefix_iff_eq_take.mp hle, List.length_reverse]
    refine ⟨path.length - 1, ⟨by omega, ?_⟩, by rw [htake, List.reverse_reverse]⟩
    have hhead : path.head? = some (path.head hne) := List.head?_eq_some_head hne
    rw [← hlast _ (by omega), htake, List.getLast?_reverse, hhead]
    exact hanchor _ hhead

section Identities

variable (hbase : base.WellFormed) (hids : ∀ name ∈ ids, name ∈ base.names)
  (hnotNull : ∀ i < base.size, ∀ v ∈ base.cells ids i, v.isNull = false)
  (hdistinct : ∀ i < base.size, ∀ j < base.size, sameIdentity base ids i j = true → i = j)
include hbase hids hnotNull hdistinct

/-- The join paths that end in a row are the ways down its parent walk from the anchors there. -/
theorem joinPath_iff_wayDown {i : ℕ} (hi : i < base.size) {walk path : List ℕ}
    (hwalk : ParentWalk base ids parents i walk) :
    JoinPath base test ids parents ids path ∧ path.getLast? = some i ↔
      path ∈ waysDown base test walk := by
  rw [mem_waysDown]
  constructor
  · rintro ⟨hpath, hlast⟩
    obtain ⟨-, hclimb, hanchor⟩ :=
      (joinPath_iff_climb hnotNull hdistinct hbase hids hlast).mp hpath
    exact ⟨hpath.nonempty, hclimb.prefix_walk hwalk, hanchor⟩
  · rintro ⟨hne, hle, hanchor⟩
    have hclimb := hwalk.of_prefix (by simpa using hne) hle
    have hlast : path.getLast? = some i := by
      rw [← List.head?_reverse, hclimb.start]
    exact ⟨(joinPath_iff_climb hnotNull hdistinct hbase hids hlast).mpr ⟨hi, hclimb, hanchor⟩,
      hlast⟩

/-- A row ends as many of the join paths as there are anchors on its parent walk. -/
theorem count_ends {paths : List (List ℕ)} (hnodup : paths.Nodup)
    (hpaths : ∀ path, path ∈ paths ↔ JoinPath base test ids parents ids path) {i : ℕ}
    (hi : i < base.size) {walk : List ℕ} (hwalk : ParentWalk base ids parents i walk) :
    (ends paths).count i = walk.countP (isAnchor base test) := by
  have hperm : (paths.filter fun path => path.getLast? == some i).Perm
      (waysDown base test walk) := by
    rw [List.perm_ext_iff_of_nodup (hnodup.filter _) (nodup_waysDown walk)]
    intro path
    rw [List.mem_filter, hpaths, beq_iff_eq]
    exact joinPath_iff_wayDown hbase hids hnotNull hdistinct hi hwalk
  calc (ends paths).count i = (paths.filter fun path => path.getLast? == some i).length := by
        rw [ends, List.count, List.countP_filterMap, ← List.countP_eq_length_filter]
        refine List.countP_congr fun path _ => ?_
        cases path.getLast? <;> simp
    _ = walk.countP (isAnchor base test) := by rw [hperm.length_eq, length_waysDown]

section Ends

variable {paths : List (List ℕ)} (hnodup : paths.Nodup)
  (hpaths : ∀ path, path ∈ paths ↔ JoinPath base test ids parents ids path)
include hnodup hpaths

omit hbase hids hnotNull hdistinct hnodup in
theorem lt_size_of_mem_ends {i : ℕ} (h : i ∈ ends paths) : i < base.size := by
  obtain ⟨path, hpath, hlast⟩ := List.mem_filterMap.mp h
  exact ((hpaths path).mp hpath).inside i (List.mem_of_getLast? hlast)

/-- With one anchor every row below it is listed, and listed once. -/
theorem ends_of_one_anchor {a : ℕ}
    (hanchor : ∀ i < base.size, isAnchor base test i = true ↔ i = a) :
    (ends paths).Nodup ∧ ∀ i < base.size, i ∈ ends paths ↔
      Relation.ReflTransGen (fun a b => parentRow base ids parents b = some a) a i := by
  have hcount : ∀ i < base.size, ∀ walk, ParentWalk base ids parents i walk →
      (ends paths).count i = walk.count a := by
    intro i hi walk hwalk
    rw [count_ends hbase hids hnotNull hdistinct hnodup hpaths hi hwalk, List.count]
    refine List.countP_congr fun b hb => ?_
    rw [hanchor b (hwalk.inside hi b hb), beq_iff_eq]
  constructor
  · rw [List.nodup_iff_count_le_one]
    intro i
    by_cases hi : i < base.size
    · obtain ⟨walk, hwalk⟩ := exists_parentWalk ids parents hi
      rw [hcount i hi walk hwalk]
      exact List.nodup_iff_count_le_one.mp hwalk.simple a
    · rw [List.count_eq_zero_of_not_mem fun h => hi (lt_size_of_mem_ends hpaths h)]
      exact Nat.zero_le 1
  · intro i hi
    obtain ⟨walk, hwalk⟩ := exists_parentWalk ids parents hi
    rw [← hwalk.mem_iff, ← List.count_pos_iff, ← List.count_pos_iff, hcount i hi walk hwalk]

end Ends

end Identities

/-- In a forest anchored at its roots the anchor on a walk is its last row. -/
theorem eq_walk_of_anchored {i : ℕ} {walk climb : List ℕ}
    (hroots : ∀ i < base.size, isAnchor base test i = true ↔ parentRow base ids parents i = none)
    (hi : i < base.size) (hwalk : ParentWalk base ids parents i walk) (hle : climb <+: walk)
    {a : ℕ} (ha : climb.getLast? = some a) (hanchor : isAnchor base test a = true) :
    climb = walk := by
  by_contra hne
  obtain ⟨p, hp⟩ := hwalk.exists_parentRow hle hne ha
  have hinside : a < base.size :=
    hwalk.inside hi a (hle.subset (List.mem_of_getLast? ha))
  rw [(hroots a hinside).mp hanchor] at hp
  cases hp

/-- In a forest anchored at its roots there is one anchor on each walk. -/
theorem waysDown_forest {i : ℕ} {walk : List ℕ} (hacyclic : Acyclic base ids parents)
    (hroots : ∀ i < base.size, isAnchor base test i = true ↔ parentRow base ids parents i = none)
    (hi : i < base.size) (hwalk : ParentWalk base ids parents i walk) :
    (waysDown base test walk).Perm [walk.reverse] := by
  rw [List.perm_ext_iff_of_nodup (nodup_waysDown walk) (List.nodup_singleton _)]
  intro path
  rw [mem_waysDown, List.mem_singleton]
  constructor
  · rintro ⟨hne, hle, hanchor⟩
    have hhead : path.head? = some (path.head hne) := List.head?_eq_some_head hne
    rw [← eq_walk_of_anchored hroots hi hwalk hle (by rw [List.getLast?_reverse, hhead])
      (hanchor _ hhead), List.reverse_reverse]
  · rintro rfl
    refine ⟨by simpa using hwalk.ne_nil, by simp, fun a ha => ?_⟩
    rw [List.head?_reverse] at ha
    exact (hroots a (hwalk.inside hi a (List.mem_of_getLast? ha))).mpr
      (hwalk.parentRow_last hacyclic ha)

end Walks

/-- Where identities are not null and pairwise different, a hierarchy that joins rows to their parent
rows lists a row once for each anchor on its parent walk, along the ways down from these anchors.
With one anchor it lists every row below it once, also in cycles. A forest anchored at its roots is
listed row by row, each at the depth of its walk. -/
theorem resolve_along_parentWalks {base : Relation} {test : Row → Result Bool}
    {ids parents : List String} (hbase : base.WellFormed)
    (htest : ∀ values ∈ base.rows, ∃ b, test (base.row values) = .ok b) {member : Member}
    (hmember : joined ids parents = .ok member) (hids : ∀ name ∈ ids, name ∈ base.names)
    (hparents : ∀ name ∈ parents, name ∈ base.names)
    (hnotNull : ∀ i < base.size, ∀ v ∈ base.cells ids i, v.isNull = false)
    (hdistinct : ∀ i < base.size, ∀ j < base.size, sameIdentity base ids i j = true → i = j)
    {depthColumn pathColumn : Option String}
    (hnew : (base.names ++ depthColumn.toList ++ pathColumn.toList).Nodup)
    (hnamed : "" ∉ depthColumn.toList ++ pathColumn.toList) {fuel : ℕ} (hfuel : base.size ≤ fuel) :
    ∃ (paths : List (List ℕ)) (r : Resolution),
      resolve fuel base ⟨anchorWhere test, member, ids, 0, depthColumn, pathColumn⟩ 0 = .ok r ∧
      r.relation.names = base.names ++ depthColumn.toList ++ pathColumn.toList ∧
      r.relation.rows = paths.map (listedRow base ids depthColumn pathColumn) ∧
      (∀ path ∈ paths, ∃ i < base.size, path.getLast? = some i ∧
        ∃ walk, ParentWalk base ids parents i walk ∧ path.reverse <+: walk) ∧
      (∀ i < base.size, ∃ walk, ParentWalk base ids parents i walk ∧
        (∀ other, ParentWalk base ids parents i other → other = walk) ∧
        (ends paths).count i = walk.countP (isAnchor base test)) ∧
      (∀ a, (∀ i < base.size, isAnchor base test i = true ↔ i = a) →
        (ends paths).Nodup ∧ ∀ i < base.size, i ∈ ends paths ↔
          Relation.ReflTransGen (fun a b => parentRow base ids parents b = some a) a i) ∧
      (Acyclic base ids parents →
        (∀ i < base.size,
          isAnchor base test i = true ↔ parentRow base ids parents i = none) →
        (ends paths).Perm (List.range base.size) ∧
          ∀ path ∈ paths, ∃ i < base.size, path.getLast? = some i ∧
            ParentWalk base ids parents i path.reverse) := by
  obtain rfl : joinedMember ids parents = member := by
    rw [joined] at hmember
    split at hmember
    · cases hmember
    · exact Except.ok.inj hmember
  obtain ⟨m, r, hr, hnames, hrows, hend⟩ :=
    resolve_pathsAt hbase htest hids hparents hids hnew hnamed hfuel
  have hnodup : ((List.range m).map (pathsAt base test ids parents ids)).flatten.Nodup :=
    nodup_pathsAt m
  have hpaths : ∀ path, path ∈ _ ↔ JoinPath base test ids parents ids path :=
    fun path => mem_flatten_pathsAt hend
  generalize ((List.range m).map (pathsAt base test ids parents ids)).flatten = paths at *
  have hlast : ∀ path ∈ paths, ∃ i < base.size, path.getLast? = some i := by
    intro path hpath
    have hjoin := (hpaths path).mp hpath
    obtain ⟨i, hi⟩ := Option.isSome_iff_exists.mp (List.getLast?_isSome.mpr hjoin.nonempty)
    exact ⟨i, hjoin.inside i (List.mem_of_getLast? hi), hi⟩
  have hdown : ∀ path ∈ paths, ∀ i < base.size, path.getLast? = some i → ∀ walk,
      ParentWalk base ids parents i walk → path ∈ waysDown base test walk :=
    fun path hpath i hi hlast walk hwalk =>
      (joinPath_iff_wayDown hbase hids hnotNull hdistinct hi hwalk).mp
        ⟨(hpaths path).mp hpath, hlast⟩
  refine ⟨paths, r, hr, hnames, hrows, ?_, ?_, fun a hanchor =>
    ends_of_one_anchor hbase hids hnotNull hdistinct hnodup hpaths hanchor, ?_⟩
  · intro path hpath
    obtain ⟨i, hi, hlast⟩ := hlast path hpath
    obtain ⟨walk, hwalk⟩ := exists_parentWalk ids parents hi
    exact ⟨i, hi, hlast, walk, hwalk, (mem_waysDown.mp (hdown path hpath i hi hlast walk hwalk)).2.1⟩
  · intro i hi
    obtain ⟨walk, hwalk⟩ := exists_parentWalk ids parents hi
    exact ⟨walk, hwalk, fun _ => hwalk.unique,
      count_ends hbase hids hnotNull hdistinct hnodup hpaths hi hwalk⟩
  · intro hacyclic hroots
    constructor
    · rw [List.perm_iff_count]
      intro i
      by_cases hi : i < base.size
      · obtain ⟨walk, hwalk⟩ := exists_parentWalk ids parents hi
        rw [count_ends hbase hids hnotNull hdistinct hnodup hpaths hi hwalk, ← length_waysDown,
          (waysDown_forest hacyclic hroots hi hwalk).length_eq, List.length_singleton,
          List.count_eq_one_of_mem List.nodup_range (List.mem_range.mpr hi)]
      · rw [List.count_eq_zero_of_not_mem fun h => hi (lt_size_of_mem_ends hpaths h),
          List.count_eq_zero_of_not_mem fun h => hi (List.mem_range.mp h)]
    · intro path hpath
      obtain ⟨i, hi, hlast⟩ := hlast path hpath
      obtain ⟨walk, hwalk⟩ := exists_parentWalk ids parents hi
      have hpath := (waysDown_forest hacyclic hroots hi hwalk).subset
        (hdown path hpath i hi hlast walk hwalk)
      rw [List.mem_singleton.mp hpath] at hlast ⊢
      rw [List.reverse_reverse]
      exact ⟨i, hi, hlast, hwalk⟩

/-- Two who are each other's boss, one below them, and one whose boss is not listed. -/
def circledStaff : Relation :=
  ⟨loopedStaff.schema, [[.int 1, .int 2], [.int 2, .int 1], [.int 3, .int 2], [.int 4, .int 9]]⟩

def everyone (_ : Row) : Result Bool := .ok true

/-- The third row comes once for itself and once for each row of the circle above it. -/
theorem resolve_along_parentWalks_circledStaff :
    (∀ i < circledStaff.size, ∀ j < circledStaff.size,
      sameIdentity circledStaff ["id"] i j = true → i = j) ∧
    ParentWalk circledStaff ["id"] ["boss"] 2 [2, 1, 0] ∧
    ParentWalk circledStaff ["id"] ["boss"] 3 [3] ∧
    ∃ (paths : List (List ℕ)) (r : Resolution),
      resolve 4 circledStaff ⟨anchorWhere everyone, joinedMember ["id"] ["boss"], ["id"], 0,
        some "depth", none⟩ 0 = .ok r ∧
      r.relation.rows = paths.map (listedRow circledStaff ["id"] (some "depth") none) ∧
      (ends paths).count 2 = 3 ∧ (ends paths).count 3 = 1 := by
  have htest : ∀ values ∈ circledStaff.rows, ∃ b, everyone (circledStaff.row values) = .ok b :=
    fun _ _ => ⟨true, rfl⟩
  have hmember : joined ["id"] ["boss"] = .ok (joinedMember ["id"] ["boss"]) := rfl
  have hdistinct : ∀ i < circledStaff.size, ∀ j < circledStaff.size,
      sameIdentity circledStaff ["id"] i j = true → i = j := by decide
  have hnew : (circledStaff.names ++ (some "depth").toList ++
      (none : Option String).toList).Nodup := by decide
  have hcircle : ParentWalk circledStaff ["id"] ["boss"] 2 [2, 1, 0] :=
    ⟨⟨rfl, by decide, by decide⟩, by decide⟩
  have halone : ParentWalk circledStaff ["id"] ["boss"] 3 [3] :=
    ⟨⟨rfl, by decide, by decide⟩, by decide⟩
  obtain ⟨paths, r, hr, -, hrows, -, hcounts, -⟩ := resolve_along_parentWalks (by decide) htest
    hmember (by decide) (by decide) (by decide) hdistinct hnew (by decide) (Nat.le_refl _)
  refine ⟨hdistinct, hcircle, halone, paths, r, hr, hrows, ?_, ?_⟩
  · obtain ⟨walk, -, honly, hcount⟩ := hcounts 2 (by decide)
    rw [hcount, ← honly _ hcircle]
    rfl
  · obtain ⟨walk, -, honly, hcount⟩ := hcounts 3 (by decide)
    rw [hcount, ← honly _ halone]
    rfl

end OrderedRelations.Hierarchy
