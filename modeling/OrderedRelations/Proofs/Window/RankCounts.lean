import OrderedRelations.Proofs.Streak.FirstAppearances
import OrderedRelations.Proofs.Streak.PartitionWindows
import OrderedRelations.Proofs.Window.ArrivalOrder
import OrderedRelations.Proofs.Window.Partitioning

/-!
# Ranks by counting

A row number, a rank and a dense rank count what stands before a row of its partition: the rows in
the strict order, the rows by the keys alone, and the different keys. Where the row itself stands, in
the relation or in its partition, does not matter to any of them.
-/

namespace OrderedRelations

/-- Elements that a function tells apart are counted by their first appearances. -/
theorem card_toFinset_map {α β : Type} [DecidableEq β] {same : α → α → Bool} {f : α → β} {l : List α}
    (hsame : ∀ a ∈ l, ∀ b ∈ l, same a b = true ↔ f a = f b) :
    (l.map f).toFinset.card = (l.eraseDupsBy same).length := by
  induction l using Streak.others_induction same with
  | nil => rfl
  | cons a l ih =>
    have hrest := ih fun b hb c hc => hsame b (List.mem_cons_of_mem a (Streak.mem_of_mem_others hb))
      c (List.mem_cons_of_mem a (Streak.mem_of_mem_others hc))
    have hold : ∀ b ∈ l, b ∉ Streak.others same a l → f b = f a := by
      intro b hb hnot
      refine (hsame b (List.mem_cons_of_mem a hb) a List.mem_cons_self).mp ?_
      by_contra hba
      exact hnot (List.mem_filter.mpr ⟨hb, by simpa using hba⟩)
    have hnew : f a ∉ ((Streak.others same a l).map f).toFinset := by
      rw [List.mem_toFinset, List.mem_map]
      rintro ⟨b, hb, heq⟩
      obtain ⟨hmem, hapart⟩ := List.mem_filter.mp hb
      have hba := (hsame b (List.mem_cons_of_mem a hmem) a List.mem_cons_self).mpr heq
      simp [hba] at hapart
    have hset : ((a :: l).map f).toFinset =
        insert (f a) ((Streak.others same a l).map f).toFinset := by
      ext x
      simp only [List.map_cons, List.toFinset_cons, Finset.mem_insert, List.mem_toFinset,
        List.mem_map]
      refine or_congr_right' fun hx => ⟨?_, ?_⟩
      · rintro ⟨b, hb, rfl⟩
        by_contra hnone
        exact hx (hold b hb fun hmem => hnone ⟨b, hmem, rfl⟩)
      · rintro ⟨b, hb, rfl⟩
        exact ⟨b, Streak.mem_of_mem_others hb, rfl⟩
    rw [hset, Finset.card_insert_of_notMem hnew, hrest, Streak.eraseDupsBy_cons_others,
      List.length_cons]

/-- Up to one of them, the different starts of peers are this one and those in front of it. -/
theorem Window.startsBetween_first {peers : List Span} {p : Span}
    (hnonneg : ∀ q ∈ peers, 0 ≤ q.first) (hp : p ∈ peers) : startsBetween peers (-1) p.first =
      1 + ((peers.filter fun q => decide (q.first < p.first)).map Span.first).toFinset.card := by
  have hstarts : ((peers.map Span.first).toFinset.filter fun x => -1 < x ∧ x ≤ p.first) =
      insert p.first ((peers.filter fun q => decide (q.first < p.first)).map Span.first).toFinset := by
    ext x
    simp only [Finset.mem_filter, List.mem_toFinset, List.mem_map, Finset.mem_insert,
      List.mem_filter, decide_eq_true_eq]
    constructor
    · rintro ⟨⟨q, hq, rfl⟩, -, hle⟩
      rcases eq_or_lt_of_le hle with heq | hlt
      · exact .inl heq
      · exact .inr ⟨q, ⟨hq, hlt⟩, rfl⟩
    · rintro (rfl | ⟨q, ⟨hq, hlt⟩, rfl⟩)
      · exact ⟨⟨p, hp, rfl⟩, lt_of_lt_of_le (by decide) (hnonneg p hp), Int.le_refl _⟩
      · exact ⟨⟨q, hq, rfl⟩, lt_of_lt_of_le (by decide) (hnonneg q hq), hlt.le⟩
  have hnew : p.first ∉
      ((peers.filter fun q => decide (q.first < p.first)).map Span.first).toFinset := by
    simp only [List.mem_toFinset, List.mem_map, List.mem_filter, decide_eq_true_eq]
    rintro ⟨q, ⟨-, hlt⟩, heq⟩
    omega
  rw [startsBetween, hstarts, Finset.card_insert_of_notMem hnew, Nat.add_comm]

namespace Relation

variable {r : Relation} {partitionBy : List String} {orderBy : List OrderKey} {members : List ℕ}
  {i : ℕ}

/-- The rows of the partition of a row, as they arrive. -/
def partitionOf (r : Relation) (partitionBy : List String) (i : ℕ) : List ℕ :=
  r.positionsOf partitionBy (r.cells partitionBy i)

/-- The different order keys of some rows: nulls of a column are one value, and so are moments of one
reading in UTC. -/
def distinctKeys (r : Relation) (orderBy : List OrderKey) (rows : List ℕ) : List (List Value) :=
  (rows.map fun j => orderBy.map fun k => r.sortCell k.column j).eraseDupsBy Value.sameKeys

/-- In the strict order, as many rows precede a row as stand in front of it. -/
theorem SortsBy.countP_precedes (h : r.SortsBy orderBy)
    (hsorted : members.Pairwise (r.Precedes orderBy)) {k : ℕ} (hk : members[k]? = some i) :
    (members.countP fun j => decide (r.Precedes orderBy j i)) = k := by
  obtain ⟨hlt, rfl⟩ := List.getElem?_eq_some_iff.mp hk
  refine countP_of_cut hlt.le fun {m j} hm => ?_
  obtain ⟨hlt', rfl⟩ := List.getElem?_eq_some_iff.mp hm
  have hpair := List.pairwise_iff_getElem.mp hsorted
  rw [decide_eq_true_iff]
  refine ⟨fun hmk => hpair m k hlt' hlt hmk, fun hpre => ?_⟩
  by_contra hkm
  rcases Nat.lt_or_eq_of_le (Nat.le_of_not_lt hkm) with hkm | rfl
  · exact hpre.asymm h (hpair k m hlt hlt' hkm)
  · exact hpre.asymm h hpre

/-- In the strict order, the rows that precede a row are those in front of it. -/
theorem SortsBy.filter_precedes (h : r.SortsBy orderBy)
    (hsorted : members.Pairwise (r.Precedes orderBy)) {k : ℕ} (hk : members[k]? = some i) :
    (members.filter fun j => decide (r.Precedes orderBy j i)) = members.take k := by
  have hleads : Leads (fun j => decide (r.Precedes orderBy j i)) members :=
    hsorted.imp fun hab hb => by simpa using hab.trans h (by simpa using hb)
  rw [← hleads.take_countP, h.countP_precedes hsorted hk]

/-- In a partition that is put in order, as many of its rows precede a row as stand in front of it. -/
theorem SortsBy.countP_partitionOf (h : r.SortsBy orderBy) {key : List Value} {k : ℕ}
    (hk : (r.arrangedAt partitionBy orderBy key)[k]? = some i) :
    ((r.partitionOf partitionBy i).countP fun j => decide (r.Precedes orderBy j i)) = k := by
  obtain ⟨-, hkey⟩ := mem_arrangedAt.mp (List.mem_of_getElem? hk)
  calc ((r.partitionOf partitionBy i).countP fun j => decide (r.Precedes orderBy j i))
      = (r.positionsOf partitionBy key).countP fun j => decide (r.Precedes orderBy j i) := by
        rw [partitionOf, positionsOf_congr hkey]
    _ = (r.arrangedAt partitionBy orderBy key).countP fun j => decide (r.Precedes orderBy j i) :=
        (arrangedAt_perm.countP_eq _).symm
    _ = k := h.countP_precedes (h.pairwise_mergeSort sorted_positionsOf) hk

/-- The different starts of the peers up to those of a row are its own and those of the different keys
before it. -/
theorem SortsBy.startsBetween_eq (h : r.SortsBy orderBy) (hi : i ∈ members) :
    Window.startsBetween (members.map (r.peersAmong orderBy members)) (-1)
        (r.peersAmong orderBy members i).first =
      1 + (r.distinctKeys orderBy (members.filter fun j => r.keysBefore orderBy j i)).length := by
  have hlt : ∀ a ∈ members, ∀ b, (r.peersAmong orderBy members a).first <
      (r.peersAmong orderBy members b).first ↔ r.keysBefore orderBy a b = true := by
    intro a ha b
    rw [← (ranking_keysBefore h).countP_lt_iff ha]
    exact Int.ofNat_lt
  -- keys are told apart by how many rows stand before them
  have hsame : ∀ a ∈ members, ∀ b ∈ members,
      Value.sameKeys (orderBy.map fun k => r.sortCell k.column a)
        (orderBy.map fun k => r.sortCell k.column b) = true ↔
      (r.peersAmong orderBy members a).first = (r.peersAmong orderBy members b).first := by
    intro a ha b hb
    rw [sameKeys_iff_tied h, ← Bool.not_eq_true, ← Bool.not_eq_true, ← hlt a ha b, ← hlt b hb a]
    omega
  have hnonneg : ∀ p ∈ members.map (r.peersAmong orderBy members), 0 ≤ p.first :=
    List.forall_mem_map.mpr fun j _ => Int.natCast_nonneg _
  have hbefore : (members.map (r.peersAmong orderBy members)).filter
      (fun p => decide (p.first < (r.peersAmong orderBy members i).first)) =
        (members.filter fun j => r.keysBefore orderBy j i).map (r.peersAmong orderBy members) := by
    rw [List.filter_map]
    refine congrArg _ (List.filter_congr fun j hj => ?_)
    rw [Function.comp_apply, Bool.eq_iff_iff, decide_eq_true_iff, hlt j hj i]
  rw [Window.startsBetween_first hnonneg (List.mem_map.mpr ⟨i, hi, rfl⟩), hbefore, List.map_map,
    distinctKeys, Streak.eraseDupsBy_map, List.length_map]
  refine congrArg (1 + ·) (card_toFinset_map fun a ha b hb => ?_)
  exact hsame a (List.mem_filter.mp ha).1 b (List.mem_filter.mp hb).1

end Relation

namespace Window

variable {r : Relation} {partitionBy : List String} {orderBy : List OrderKey}

section Numbered

variable (hr : r.WellFormed) (hp : ∀ name ∈ partitionBy, name ∈ r.names)
  (ho : ∀ k ∈ orderBy, k.column ∈ r.names) (hne : orderBy ≠ []) (hnan : r.NaNFree orderBy)
  (hc : r.Comparable orderBy) (frame : Option FrameSpec) (outputColumn : Option String)
include hr hp ho hne hnan hc

/-- The number of a row counts the rows of its partition that precede it. -/
theorem evaluate_rowNumber_eq :
    evaluate r ⟨.rowNumber, partitionBy, orderBy, frame, outputColumn⟩ =
      .ok ((List.range r.size).map fun i => .int (1 + ((r.partitionOf partitionBy i).countP
        fun j => decide (r.Precedes orderBy j i) : ℕ))) := by
  have hsorts := hr.sortsBy ho hnan
  have hv : validate r.schema ⟨.rowNumber, partitionBy, orderBy, frame, outputColumn⟩ = .ok none :=
    validate_eq_none hp ho hne rfl rfl
  refine (evaluate_eq_ok_iff hr hv hnan).mpr ⟨hc, by simp, fun i _ => ⟨_, rfl, ?_⟩⟩
  have hin : ∀ j ∈ r.arrangedAt partitionBy orderBy (r.cells partitionBy i), j < r.size :=
    fun j hj => (Relation.mem_arrangedAt.mp hj).1
  rw [HoldsAt, FrameExtent.rowsAt_eq_map hin, List.length_map]
  dsimp only
  refine List.ext_getElem (by simp) fun k hk hk' => ?_
  rw [List.length_map] at hk
  have hj := hin _ (List.getElem_mem hk)
  have hcount := hsorts.countP_partitionOf (List.getElem?_eq_getElem hk)
  simp [hj, hcount, Int.add_comm]

/-- A rank counts the rows of the partition that the keys place before the row. -/
theorem evaluate_rank_eq :
    evaluate r ⟨.rank, partitionBy, orderBy, frame, outputColumn⟩ =
      .ok ((List.range r.size).map fun i => .int (1 + ((r.partitionOf partitionBy i).countP
        fun j => r.keysBefore orderBy j i : ℕ))) := by
  have hv : validate r.schema ⟨.rank, partitionBy, orderBy, frame, outputColumn⟩ = .ok none :=
    validate_eq_none hp ho hne rfl rfl
  refine (evaluate_eq_answers hr hv hnan trivial).mpr ⟨hc, Result.mapM_eq_map fun i _ => ?_⟩
  rw [Int.add_comm]
  rfl

/-- A dense rank counts the different keys of the partition that are before that of the row. -/
theorem evaluate_denseRank_eq :
    evaluate r ⟨.denseRank, partitionBy, orderBy, frame, outputColumn⟩ =
      .ok ((List.range r.size).map fun i => .int (1 + ((r.distinctKeys orderBy
        ((r.partitionOf partitionBy i).filter fun j => r.keysBefore orderBy j i)).length : ℕ))) := by
  have hv : validate r.schema ⟨.denseRank, partitionBy, orderBy, frame, outputColumn⟩ = .ok none :=
    validate_eq_none hp ho hne rfl rfl
  refine (evaluate_eq_answers hr hv hnan trivial).mpr ⟨hc, Result.mapM_eq_map fun i hi => ?_⟩
  have hself : i ∈ r.partitionOf partitionBy i :=
    Relation.mem_positionsOf.mpr ⟨List.mem_range.mp hi, hr.sameKeys_cells (List.mem_range.mp hi) hp⟩
  exact congrArg (fun n : ℕ => Except.ok (Value.int n))
    ((hr.sortsBy ho hnan).startsBetween_eq hself)

/-- The three ranks of a row, each one more than what they count in its partition: for its number the
rows before it and those of its ties that arrived earlier, for its rank the rows strictly before it,
and for its dense rank the different keys strictly before its own. -/
theorem evaluate_ranks_count :
    evaluate r ⟨.rowNumber, partitionBy, orderBy, frame, outputColumn⟩ =
      .ok ((List.range r.size).map fun i => .int (1 + ((r.partitionOf partitionBy i).countP
        fun j => decide (r.Precedes orderBy j i) : ℕ))) ∧
    evaluate r ⟨.rank, partitionBy, orderBy, frame, outputColumn⟩ =
      .ok ((List.range r.size).map fun i => .int (1 + ((r.partitionOf partitionBy i).countP
        fun j => r.keysBefore orderBy j i : ℕ))) ∧
    evaluate r ⟨.denseRank, partitionBy, orderBy, frame, outputColumn⟩ =
      .ok ((List.range r.size).map fun i => .int (1 + ((r.distinctKeys orderBy
        ((r.partitionOf partitionBy i).filter fun j => r.keysBefore orderBy j i)).length : ℕ))) :=
  ⟨evaluate_rowNumber_eq hr hp ho hne hnan hc frame outputColumn,
    evaluate_rank_eq hr hp ho hne hnan hc frame outputColumn,
    evaluate_denseRank_eq hr hp ho hne hnan hc frame outputColumn⟩

end Numbered

def earliestFirst : List OrderKey := [⟨"read", .asc, .last⟩]

/-- Three readings of one hour, which are spelled differently, come first, and the two lost ones tie
behind them. -/
theorem evaluate_ranks_count_readings :
    evaluate Arrangement.readings ⟨.rowNumber, [], earliestFirst, none, none⟩ =
      .ok [.int 1, .int 4, .int 2, .int 3, .int 5] ∧
    evaluate Arrangement.readings ⟨.rank, [], earliestFirst, none, none⟩ =
      .ok [.int 1, .int 4, .int 1, .int 1, .int 4] ∧
    evaluate Arrangement.readings ⟨.denseRank, [], earliestFirst, none, none⟩ =
      .ok [.int 1, .int 2, .int 1, .int 1, .int 2] := by
  have hr : Arrangement.readings.WellFormed := by decide
  have ho : ∀ k ∈ earliestFirst, k.column ∈ Arrangement.readings.names := by decide
  have hp : ∀ name ∈ ([] : List String), name ∈ Arrangement.readings.names := by simp
  obtain ⟨hnumber, hrank, hdense⟩ := evaluate_ranks_count hr hp ho (by simp [earliestFirst])
    (by decide) (by decide) none none
  refine ⟨hnumber.trans ?_, hrank.trans ?_, hdense.trans ?_⟩ <;> cbv

end Window
end OrderedRelations
