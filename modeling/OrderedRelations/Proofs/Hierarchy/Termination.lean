import OrderedRelations.Proofs.Hierarchy.Ancestry

/-!
# Open hierarchies end

Where the member draws its rows from finitely many identity keys, a hierarchy without a cap ends,
whatever cycles the rows have: a frontier at depth `d` has chains of `d + 1` different keys.
-/

namespace OrderedRelations.Hierarchy

/-- One key of each class of equal ones. -/
def representatives (keys : List (List Value)) : List (List Value) :=
  keys.pwFilter fun a b => Value.sameKeys a b = false

/-- How many different keys there are. -/
def distinctKeys (keys : List (List Value)) : ℕ := (representatives keys).length

theorem exists_representative {keys : List (List Value)} {key : List Value} (h : key ∈ keys) :
    ∃ r ∈ representatives keys, r = key ∨ Value.sameKeys r key = true := by
  induction keys with
  | nil => simp at h
  | cons k rest ih =>
    have hkept : representatives rest ⊆ representatives (k :: rest) := by
      unfold representatives
      by_cases hnew : ∀ r ∈ rest.pwFilter fun a b => Value.sameKeys a b = false,
          Value.sameKeys k r = false
      · rw [List.pwFilter_cons_of_pos hnew]
        exact List.subset_cons_self _ _
      · rw [List.pwFilter_cons_of_neg hnew]
        exact fun r hr => hr
    rcases List.mem_cons.mp h with rfl | h
    · by_cases hnew : ∀ r ∈ representatives rest, Value.sameKeys key r = false
      · refine ⟨key, ?_, .inl rfl⟩
        rw [representatives, List.pwFilter_cons_of_pos hnew]
        exact List.mem_cons_self
      · obtain ⟨r, hr, hsame⟩ : ∃ r ∈ representatives rest, Value.sameKeys key r = true := by
          simpa using hnew
        exact ⟨r, hkept hr, .inr (Value.sameKeys_symm hsame)⟩
    · obtain ⟨r, hr, hsame⟩ := ih h
      exact ⟨r, hkept hr, hsame⟩

/-- Pairwise different keys, each equal to a listed one, are no more than the different keys
listed. -/
theorem length_le_distinctKeys {chain keys : List (List Value)}
    (hdistinct : chain.Pairwise fun a b => Value.sameKeys a b = false)
    (hlisted : ∀ c ∈ chain, ∃ key ∈ keys, Value.sameKeys key c = true) :
    chain.length ≤ distinctKeys keys := by
  have hchoice : ∀ c ∈ chain, ∃ r ∈ representatives keys, Value.sameKeys r c = true := by
    intro c hc
    obtain ⟨key, hkey, hsame⟩ := hlisted c hc
    obtain ⟨r, hr, rfl | hrep⟩ := exists_representative hkey
    · exact ⟨_, hr, hsame⟩
    · exact ⟨r, hr, Value.sameKeys_trans hrep hsame⟩
  choose! rep hrep hsame using hchoice
  have hnodup : (chain.map rep).Nodup := by
    rw [List.Nodup, List.pairwise_map]
    refine hdistinct.imp_of_mem fun {a b} ha hb hab heq => ?_
    have hboth := Value.sameKeys_trans (Value.sameKeys_symm (hsame a ha)) (heq ▸ hsame b hb)
    simp [hboth] at hab
  have hsubset : chain.map rep ⊆ representatives keys := by
    intro r hr
    obtain ⟨c, hc, rfl⟩ := List.mem_map.mp hr
    exact hrep c hc
  simpa [distinctKeys] using (List.subperm_of_subset hnodup hsubset).length_le

section Bounded

variable {spec : HierarchySpec} {base seed : Relation} {places : List ℕ}

/-- The rows that the member ever gives: the children of the entries of every frontier. -/
def Returned (spec : HierarchySpec) (base seed : Relation) (places : List ℕ)
    (row : List Value) : Prop :=
  ∃ d frontier, Reached (nextLevel spec base seed.schema places) (roots places seed.rows) d
      frontier ∧
    ∃ parent ∈ frontier, ∃ children, Gives spec base seed.schema parent.row children ∧
      row ∈ children

/-- Every key on a chain is that of an anchor row or of a row that the member gave. -/
theorem Reached.chain_keys {d : ℕ} {frontier : List Lineage}
    (h : Reached (nextLevel spec base seed.schema places) (roots places seed.rows) d frontier) :
    ∀ l ∈ frontier, ∀ key ∈ l.chain, ∃ row, key = keyOf places row ∧
      (row ∈ seed.rows ∨ Returned spec base seed places row) := by
  induction h with
  | start =>
    intro l hl key hkey
    obtain ⟨row, hrow, rfl⟩ := List.mem_map.mp hl
    exact ⟨row, List.mem_singleton.mp hkey, .inl hrow⟩
  | round before _ hnext ih =>
    intro l hl key hkey
    obtain ⟨parent, hparent, children, hgives, hl⟩ := exists_parent hnext hl
    obtain ⟨hmem, -, hchain⟩ := mem_offspring.mp hl
    rw [hchain] at hkey
    rcases List.mem_append.mp hkey with hkey | hkey
    · exact ih parent hparent key hkey
    · exact ⟨l.row, List.mem_singleton.mp hkey,
        .inr ⟨_, _, before, parent, hparent, children, hgives, hmem⟩⟩

theorem opening_eq_ok (h : opening spec base = .ok (seed, places)) :
    spec.cycleKey.mapM seed.schema.indexOf = .ok places := by
  simp only [opening, Result.bind_eq_ok, Result.pure_eq_ok, Except.ok.injEq, Prod.mk.injEq] at h
  obtain ⟨out, -, seed', -, places', hplaces, rfl, rfl⟩ := h
  exact hplaces

/-- The identity key of a row of a relation is the same key as itself. -/
theorem sameKeys_keyOf {r : Relation} (hr : r.WellFormed) {names : List String}
    (hplaces : names.mapM r.schema.indexOf = .ok places) {row : List Value} (h : row ∈ r.rows) :
    Value.sameKeys (keyOf places row) (keyOf places row) = true := by
  rw [Schema.keyOf_places hplaces]
  refine Value.sameKeys_self fun v hv => ?_
  obtain ⟨name, hname, rfl⟩ := List.mem_map.mp hv
  obtain ⟨i, -, hi⟩ := Result.exists_of_mapM hplaces hname
  obtain ⟨c, hc, rfl⟩ := Schema.indexOf?_eq_some (Schema.indexOf_eq_ok.mp hi)
  obtain ⟨type, htype⟩ := Relation.exists_typeOf
    (show c.name ∈ r.names from List.mem_map.mpr ⟨c, List.mem_of_getElem? hc, rfl⟩)
  exact Value.sameKey_self (hr.conforms h htype)

end Bounded

/-- Fuel that leaves nothing pending is enough, and more of it changes nothing. -/
theorem grow_of_le {next : List Lineage → Result (List Lineage)} {n m : ℕ} (hle : n ≤ m)
    {frontier : List Lineage}
    (h : ∀ found pending, grow next n frontier = .ok (found, pending) → pending = []) :
    grow next m frontier = grow next n frontier := by
  induction n generalizing m frontier with
  | zero =>
    cases frontier with
    | nil => simp [grow]
    | cons l ls => simpa using h [l :: ls] (l :: ls) rfl
  | succ n ih =>
    obtain ⟨m, rfl⟩ := Nat.exists_eq_add_of_le' (show 1 ≤ m by omega)
    cases frontier with
    | nil => simp [grow]
    | cons l ls =>
      cases hnext : next (l :: ls) with
      | error e => simp [grow, hnext]
      | ok level =>
        have hlevel : grow next m level = grow next n level := by
          refine ih (by omega) fun found pending hgrow => ?_
          exact h ((l :: ls) :: found) pending (by simp [grow, hnext, hgrow])
        simp [grow, hnext, hlevel]

section Stopping

variable {next : List Lineage → Result (List Lineage)} {start : List Lineage}

theorem Reached.unique {d : ℕ} {frontier other : List Lineage} (h : Reached next start d frontier)
    (h' : Reached next start d other) : frontier = other := by
  induction h generalizing other with
  | start =>
    cases h'
    rfl
  | round _ _ hnext ih =>
    cases h' with
    | round before _ hnext' =>
      cases ih before
      exact Except.ok.inj (hnext.symm.trans hnext')

/-- From an empty frontier, and where a call fails, the loop goes no further. -/
theorem Reached.le_of_stop {d rounds : ℕ} {frontier last : List Lineage}
    (h : Reached next start d frontier) (hlast : Reached next start rounds last)
    (hstop : last = [] ∨ ∃ e, next last = .error e) : d ≤ rounds := by
  induction h with
  | start => exact Nat.zero_le _
  | @round d frontier level before hne hnext ih =>
    refine Nat.lt_of_le_of_ne ih fun heq => ?_
    subst heq
    cases before.unique hlast
    rcases hstop with rfl | ⟨e, he⟩
    · exact hne rfl
    · rw [hnext] at he
      cases he

end Stopping

section Ending

variable {spec : HierarchySpec} {base seed : Relation} {places : List ℕ} {keys : List (List Value)}

/-- A frontier that is not empty takes one more key than its depth. -/
theorem Reached.lt_distinctKeys (hopening : opening spec base = .ok (seed, places))
    (hseed : seed.WellFormed) (hkeys : ∀ row, Returned spec base seed places row →
      ∃ key ∈ keys, Value.sameKeys key (keyOf places row) = true) {d : ℕ} {frontier : List Lineage}
    (h : Reached (nextLevel spec base seed.schema places) (roots places seed.rows) d frontier)
    (hne : frontier ≠ []) : d < distinctKeys (keys ++ seed.rows.map (keyOf places)) := by
  obtain ⟨l, hl⟩ := List.exists_mem_of_ne_nil frontier hne
  have hdescent := h.descent l hl
  have hlisted : ∀ c ∈ l.chain, ∃ key ∈ keys ++ seed.rows.map (keyOf places),
      Value.sameKeys key c = true := by
    intro c hc
    obtain ⟨row, rfl, hrow | hrow⟩ := h.chain_keys l hl c hc
    · exact ⟨_, List.mem_append_right _ (List.mem_map.mpr ⟨row, hrow, rfl⟩),
        sameKeys_keyOf hseed (opening_eq_ok hopening) hrow⟩
    · obtain ⟨key, hkey, hsame⟩ := hkeys row hrow
      exact ⟨key, List.mem_append_left _ hkey, hsame⟩
  have hle := length_le_distinctKeys hdescent.distinct hlisted
  have hlength := hdescent.length
  omega

/-- A hierarchy without a cap whose member draws on finitely many identity keys ends: the loop goes
round at most as often as there are different keys among those and the anchor's, whatever cycles
the rows have. It ends at an empty frontier, with the rows of all frontiers before it, or where a
call fails. -/
theorem open_resolution_ends (hdepth : spec.maxDepth = 0) :
    (∀ e, opening spec base = .error e → ∀ fuel, resolve fuel base spec 0 = .error e) ∧
    ∀ seed places keys, opening spec base = .ok (seed, places) → seed.WellFormed →
      (∀ row, Returned spec base seed places row →
        ∃ key ∈ keys, Value.sameKeys key (keyOf places row) = true) →
      ∃ rounds last, Reached (nextLevel spec base seed.schema places) (roots places seed.rows)
          rounds last ∧
        (∀ d frontier, Reached (nextLevel spec base seed.schema places) (roots places seed.rows)
          d frontier → d ≤ rounds) ∧
        ((last = [] ∧ rounds ≤ distinctKeys (keys ++ seed.rows.map (keyOf places)) ∧
            ∃ found : List (List Lineage), found.length = rounds ∧
              (∀ d level, found[d]? = some level →
                Reached (nextLevel spec base seed.schema places) (roots places seed.rows) d level ∧
                  level ≠ []) ∧
              ∀ fuel, distinctKeys (keys ++ seed.rows.map (keyOf places)) ≤ fuel →
                resolve fuel base spec 0 = withColumns spec seed.schema found) ∨
          (rounds < distinctKeys (keys ++ seed.rows.map (keyOf places)) ∧
            ∃ e, nextLevel spec base seed.schema places last = .error e ∧
              ∀ fuel, distinctKeys (keys ++ seed.rows.map (keyOf places)) ≤ fuel →
                resolve fuel base spec 0 = .error e)) := by
  refine ⟨fun e he fuel => by rw [resolve_eq, he, Result.error_bind], ?_⟩
  intro seed places keys hopening hseed hkeys
  have hstart : Reached (nextLevel spec base seed.schema places) (roots places seed.rows) 0
      (roots places seed.rows) := .start
  have hresolve : ∀ fuel, resolve fuel base spec 0 =
      levels (nextLevel spec base seed.schema places) 0 fuel (roots places seed.rows) >>=
        withColumns spec seed.schema := by
    intro fuel
    rw [resolve_eq, hopening, Result.ok_bind, hdepth]
    rfl
  rcases grow_spec hstart (distinctKeys (keys ++ seed.rows.map (keyOf places))) with
    ⟨rounds, last, e, hlt, hlast, herror, hgrow⟩ | ⟨found, pending, hgrow, hfound, hend⟩
  · refine ⟨rounds, last, hlast, fun d _ h => h.le_of_stop hlast (.inr ⟨e, herror⟩), .inr
      ⟨by omega, e, herror, fun fuel hfuel => ?_⟩⟩
    have hmore := grow_of_le hfuel fun found pending h => by
      rw [hgrow] at h
      cases h
    rw [hresolve, levels, if_pos rfl, hmore, hgrow]
    rfl
  · -- a pending frontier would take more keys than there are
    obtain ⟨rfl, hle, hlast⟩ := hend.resolve_right fun hopen => by
      have hlt := hopen.2.lt_distinctKeys hopening hseed hkeys hopen.1
      omega
    simp only [Nat.zero_add] at hlast hfound
    refine ⟨found.length, [], hlast, fun d _ h => h.le_of_stop hlast (.inl rfl), .inl
      ⟨rfl, hle, found, rfl, hfound, fun fuel hfuel => ?_⟩⟩
    have hmore := grow_of_le hfuel fun found' pending h => by
      rw [hgrow] at h
      cases h
      rfl
    rw [hresolve, levels_eq_ok.mpr (by rw [if_pos rfl, hmore, hgrow]), Result.ok_bind]

end Ending

/-- Joining gives rows of the base only. -/
theorem mem_base_of_joined {parents children : List String} {frontier base out : Relation}
    (h : joinedMember parents children frontier base = .ok (.relation out)) :
    ∀ row ∈ out.rows, row ∈ base.rows := by
  simp only [joinedMember, Result.bind_eq_ok] at h
  obtain ⟨found, hfound, h⟩ := h
  cases h
  intro row hrow
  obtain ⟨rows, hrows, hrow⟩ := List.mem_flatten.mp hrow
  obtain ⟨values, -, hjoin⟩ := Result.exists_source_of_mapM hfound hrows
  simp only [joinRow, Result.bind_eq_ok] at hjoin
  obtain ⟨key, -, hjoin⟩ := hjoin
  split at hjoin
  · cases hjoin
    simp at hrow
  · exact (Result.keep_sublist hjoin).subset hrow

/-- A member that gives rows of the base only draws on the keys of the base. -/
theorem exists_base_key {spec : HierarchySpec} {base seed : Relation} {places : List ℕ}
    {names : List String} (hbase : base.WellFormed)
    (hplaces : names.mapM base.schema.indexOf = .ok places)
    (hrows : ∀ row, Returned spec base seed places row → row ∈ base.rows) :
    ∀ row, Returned spec base seed places row →
      ∃ key ∈ base.rows.map (keyOf places), Value.sameKeys key (keyOf places row) = true :=
  fun row h => ⟨keyOf places row, List.mem_map.mpr ⟨row, hrows row h, rfl⟩,
    sameKeys_keyOf hbase hplaces (hrows row h)⟩

theorem open_resolution_ends_loopedStaff :
    staffTree.maxDepth = 0 ∧
      opening staffTree loopedStaff = .ok (⟨loopedStaff.schema, [[.int 1, .null]]⟩, [0]) ∧
      distinctKeys (loopedStaff.rows.map (keyOf [0]) ++ [[.int 1]]) = 3 ∧
      ∃ rounds last, Reached (nextLevel staffTree loopedStaff loopedStaff.schema [0])
          (roots [0] [[.int 1, .null]]) rounds last ∧ rounds ≤ 3 ∧
        ∀ d frontier, Reached (nextLevel staffTree loopedStaff loopedStaff.schema [0])
          (roots [0] [[.int 1, .null]]) d frontier → d ≤ rounds := by
  have hopening : opening staffTree loopedStaff =
      .ok (⟨loopedStaff.schema, [[.int 1, .null]]⟩, [0]) := rfl
  have hplaces : ["id"].mapM loopedStaff.schema.indexOf = .ok [0] := rfl
  have hcount : distinctKeys (loopedStaff.rows.map (keyOf [0]) ++ [[.int 1]]) = 3 := by decide
  have hrows : ∀ row, Returned staffTree loopedStaff ⟨loopedStaff.schema, [[.int 1, .null]]⟩ [0]
      row → row ∈ loopedStaff.rows := by
    rintro row ⟨d, frontier, -, parent, -, children, hgives, hrow⟩
    exact mem_base_of_joined hgives row hrow
  obtain ⟨rounds, last, hlast, hmost, hend⟩ := (open_resolution_ends rfl).2 _ [0]
    (loopedStaff.rows.map (keyOf [0])) hopening (by decide)
    (exists_base_key (by decide) hplaces hrows)
  have hle : rounds ≤ distinctKeys (loopedStaff.rows.map (keyOf [0]) ++ [[.int 1]]) :=
    hend.elim (fun h => h.2.1) fun h => h.1.le
  exact ⟨rfl, hopening, hcount, rounds, last, hlast, hcount ▸ hle, hmost⟩

end OrderedRelations.Hierarchy
