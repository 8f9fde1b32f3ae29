import OrderedRelations.Proofs.Window.FrameRows
import OrderedRelations.Proofs.Window.PartitionLocality
import OrderedRelations.Proofs.Window.StretchTotals

/-!
# Order of arrival

A rank, and a sum, a number or a mean over frames that keep ties together, answer for each row by
itself: the answer reads the rows of its partition and not how they stand. So rearranging a relation
rearranges its values in the same way.
-/

namespace OrderedRelations

/-- The functions that do not depend, over a frame, on the arrangement of ties. -/
def WindowFunction.OrderFree (frame : FrameSpec) : WindowFunction → Prop
  | rank => True
  | denseRank => True
  | aggregate kind _ => kind.IsTotal ∧ frame.KeepsTies
  | countRows => frame.KeepsTies
  | _ => False

namespace Window

open FrameAggregate (totalOf)

/-- The total of the rows that stand in the frame of a row. -/
def totalAmong (r : Relation) (orderBy : List OrderKey) (frame : FrameSpec) (kind : AggregateKind)
    (value : ℕ → Value) (members : List ℕ) (i : ℕ) : Result Value := do
  let tests ← r.frameTests orderBy frame i
  totalOf kind ((tests.rows members).map value)

/-- The value of an order-free function for a row among the rows of its partition. -/
def answerAmong (r : Relation) (spec : WindowSpec) (frame : FrameSpec) (members : List ℕ) (i : ℕ) :
    Result Value :=
  match spec.function with
  | .rank => .ok (.int ((r.peersAmong spec.orderBy members i).first + 1))
  | .denseRank => .ok (.int (startsBetween (members.map (r.peersAmong spec.orderBy members)) (-1)
      (r.peersAmong spec.orderBy members i).first))
  | .aggregate kind column => totalAmong r spec.orderBy frame kind (r.cell column) members i
  | .countRows => totalAmong r spec.orderBy frame .count (fun _ => .bool true) members i
  | _ => .error .unimplemented

/-- The value of an order-free function for a row. -/
def answer (r : Relation) (spec : WindowSpec) (frame : FrameSpec) (i : ℕ) : Result Value :=
  answerAmong r spec frame (r.positionsOf spec.partitionBy (r.cells spec.partitionBy i)) i

variable {r : Relation} {spec : WindowSpec} {frame : Option FrameSpec} {members : List ℕ}

theorem answerAmong_perm {f : FrameSpec} {members' : List ℕ} (h : members.Perm members') (i : ℕ) :
    answerAmong r spec f members i = answerAmong r spec f members' i := by
  have hpeers : r.peersAmong spec.orderBy members = r.peersAmong spec.orderBy members' :=
    funext (Relation.peersAmong_perm h)
  have htotal : ∀ kind value, totalAmong r spec.orderBy f kind value members i =
      totalAmong r spec.orderBy f kind value members' i := by
    intro kind value
    have hrows : ∀ tests : FrameTests, totalOf kind ((tests.rows members).map value) =
        totalOf kind ((tests.rows members').map value) :=
      fun tests => FrameAggregate.totalOf_perm ((h.filter _).map value)
    simp only [totalAmong, hrows]
  simp only [answerAmong, hpeers, htotal, startsBetween_perm (h.map _)]

section Ordered

variable (hr : r.WellFormed) (hnan : r.NaNFree spec.orderBy)
  (hvalid : Validated r.schema spec frame) (hin : ∀ i ∈ members, i < r.size)
  (hc : ∀ k ∈ spec.orderBy, ∀ i ∈ members, (r.cell k.column i).comparable?.isSome = true)
  (hordered : r.InOrder spec.orderBy members)
include hr hnan hvalid hin hc hordered

/-- A total over the frames of rows in order is that of the rows of each frame. -/
theorem totals_eq_ok_iff (hties : (frame.getD spec.defaultFrame).KeepsTies) {kind : AggregateKind}
    (hkind : kind.IsTotal) {value : ℕ → Value} (hfits : Fits (members.map value) kind)
    {results : List Value} :
    (FrameExtent.spans r.schema spec.orderBy (Arrangement.rowsAt r members)
        (frame.getD spec.defaultFrame) >>= FrameAggregate.overFrames kind (members.map value)) =
      .ok results ↔
    members.mapM (totalAmong r spec.orderBy (frame.getD spec.defaultFrame) kind value members) =
      .ok results := by
  -- the frames lie within the rows, so each is totalled as if it were the only one
  have hover : ∀ {spans : List Span}, members.mapM (fun i => (r.frameTests spec.orderBy
      (frame.getD spec.defaultFrame) i).map fun tests => tests.span members) = .ok spans →
      FrameAggregate.overFrames kind (members.map value) spans =
        spans.mapM fun f => totalOf kind (FrameAggregate.framed (members.map value) f) := by
    intro spans hspans
    refine FrameAggregate.overFrames_eq_totals hkind hfits fun s hs => ?_
    obtain ⟨i, -, hi⟩ := Result.exists_source_of_mapM hspans hs
    obtain ⟨tests, -, rfl⟩ := Result.map_eq_ok.mp hi
    have hahead := members.countP_le_length (p := tests.ahead)
    have hthrough := members.countP_le_length (p := tests.through)
    refine FrameAggregate.inRows_of_within ⟨?_, ?_, ?_, ?_⟩ <;>
      simp only [FrameTests.span, List.length_map] <;> omega
  -- between the two cuts of a frame stand the rows that its tests let in
  have heach : ∀ i, ((r.frameTests spec.orderBy (frame.getD spec.defaultFrame) i).map
      (fun tests => tests.span members) >>= fun f =>
        totalOf kind (FrameAggregate.framed (members.map value) f)) =
      totalAmong r spec.orderBy (frame.getD spec.defaultFrame) kind value members i := by
    intro i
    rw [totalAmong]
    cases htests : r.frameTests spec.orderBy (frame.getD spec.defaultFrame) i with
    | error e => rfl
    | ok tests =>
      obtain ⟨hahead, hthrough⟩ := FrameExtent.leads_frameTests hr hnan hvalid.orderColumns hin hc
        hordered hvalid.measuresOrder htests
      exact congrArg (totalOf kind) (FrameAggregate.framed_eq_filter hahead hthrough value)
  rw [FrameExtent.spans_eq_tests hr hnan hvalid.orderColumns hin hc hordered hvalid.measuresOrder
    hties, ← funext heach, ← Result.mapM_bind_mapM_eq_ok, Result.bind_eq_ok, Result.bind_eq_ok]
  refine exists_congr fun spans => and_congr_right fun hspans => ?_
  rw [hover hspans]

/-- Over rows in order, an order-free function answers row by row. -/
theorem evaluateRows_eq_ok_iff
    (hfree : spec.function.OrderFree (frame.getD spec.defaultFrame)) {results : List Value} :
    evaluateRows r.schema spec (frame.getD spec.defaultFrame) (Arrangement.rowsAt r members) =
        .ok results ↔
      members.mapM (answerAmong r spec (frame.getD spec.defaultFrame) members) = .ok results := by
  have hsorts := hr.sortsBy hvalid.orderColumns hnan
  have hpeers : peersOf r.schema spec.orderBy (Arrangement.rowsAt r members) =
      .ok (members.map (r.peersAmong spec.orderBy members)) := by
    rw [peersOf_eq hin hvalid.orderColumns hc, hordered.peers_eq hsorts]
  unfold evaluateRows answerAmong
  cases hfunction : spec.function with
  | rank =>
    simp only [hpeers, Result.ok_bind, List.map_map]
    rw [Result.mapM_eq_map fun i _ => rfl]
    rfl
  | denseRank =>
    have hfirst : ∀ p ∈ members.map (r.peersAmong spec.orderBy members), -1 ≤ p.first :=
      List.forall_mem_map.mpr fun i _ => by simp only [Relation.peersAmong]; omega
    have hsorted : (members.map (r.peersAmong spec.orderBy members)).Pairwise
        fun p q => p.first ≤ q.first := by
      rw [← hordered.peers_eq hsorts]
      exact (Peers.spans_ordered _).imp fun h => h.1
    simp only [hpeers, Result.ok_bind, denseRanks_eq hfirst hsorted, List.map_map, Nat.zero_add]
    rw [Result.mapM_eq_map fun i _ => rfl]
    rfl
  | aggregate kind column =>
    rw [hfunction] at hfree
    obtain ⟨hkind, hties⟩ := hfree
    obtain ⟨source, hsource, hnumeric⟩ := hvalid.exists_source hfunction
    have hcolumn := columnOf_eq hin (hvalid.argument column (by rw [hfunction]; rfl))
    have hfits : Fits (members.map (r.cell column)) kind := by
      refine (FrameAggregate.fits_or_leaves (hr.conforms_cells hin hsource) hnumeric).resolve_right ?_
      rintro ⟨hextreme, -⟩
      rcases hkind with rfl | rfl | rfl <;> simp at hextreme
    simp only [hcolumn, Result.ok_bind]
    exact totals_eq_ok_iff hr hnan hvalid hin hc hordered hties hkind hfits
  | countRows =>
    rw [hfunction] at hfree
    have hvalues : List.replicate (Arrangement.rowsAt r members).length (Value.bool true) =
        members.map fun _ => .bool true := by
      rw [FrameExtent.rowsAt_eq_map hin, List.length_map, List.map_const']
    have hkind : AggregateKind.IsTotal .count := .inr (.inl rfl)
    have hfits : Fits (members.map fun _ => Value.bool true) .count := trivial
    simp only [hvalues]
    exact totals_eq_ok_iff hr hnan hvalid hin hc hordered hfree hkind hfits
  | _ =>
    rw [hfunction] at hfree
    exact hfree.elim

end Ordered

section Rearranged

variable {order : List ℕ} {values : List Value}

theorem comparable_pick_iff (horder : order.Perm (List.range r.size)) {orderBy : List OrderKey} :
    (r.pick order).Comparable orderBy ↔ r.Comparable orderBy := by
  have hin := Relation.lt_size_of_perm horder
  refine ⟨fun h k hk i hi => ?_, fun h => h.pick hin⟩
  obtain ⟨j, hj, rfl⟩ := Relation.exists_placeAt (horder.mem_iff.mpr (List.mem_range.mpr hi))
  rw [← Relation.cell_pick hj]
  exact h k hk j (by simpa using hj)

/-- The rows of a key in a rearranged relation are those of the relation, in order and with ties as
they arrive. -/
theorem resultsAt_pick_eq_ok_iff (hr : r.WellFormed) (hnan : r.NaNFree spec.orderBy)
    (hvalid : Validated r.schema spec frame)
    (hfree : spec.function.OrderFree (frame.getD spec.defaultFrame))
    (hc : r.Comparable spec.orderBy) (horder : order.Perm (List.range r.size))
    {key results : List Value} :
    resultsAt (r.pick order) spec frame key = .ok results ↔
      ((r.pick order).arrangedAt spec.partitionBy spec.orderBy key).mapM
        (fun j => answer r spec (frame.getD spec.defaultFrame) (Relation.placeAt order j)) =
          .ok results := by
  have hin := Relation.lt_size_of_perm horder
  have hsorts := hr.sortsBy hvalid.orderColumns hnan
  have hpositions : ∀ j ∈ (r.pick order).arrangedAt spec.partitionBy spec.orderBy key,
      j < order.length := fun j hj => by simpa using (Relation.mem_arrangedAt.mp hj).1
  have harranged := @Relation.arrangedAt_pick r order spec.partitionBy spec.orderBy key
  -- read through the places, the partition is a rearrangement of that of the relation
  have hperm : (((r.pick order).arrangedAt spec.partitionBy spec.orderBy key).map
      (Relation.placeAt order)).Perm (r.positionsOf spec.partitionBy key) := by
    rw [harranged]
    exact (List.mergeSort_perm _ _).trans (horder.filter _)
  have hordered : r.InOrder spec.orderBy (((r.pick order).arrangedAt spec.partitionBy spec.orderBy
      key).map (Relation.placeAt order)) := by
    rw [harranged]
    exact (Relation.ranking_keysBefore hsorts).sorted_mergeSort _
  have hmem : ∀ i ∈ ((r.pick order).arrangedAt spec.partitionBy spec.orderBy key).map
      (Relation.placeAt order), i < r.size := fun i hi =>
    (Relation.mem_positionsOf.mp (hperm.mem_iff.mp hi)).1
  rw [resultsAt, Relation.rowsAt_pick hin hpositions, Relation.schema_pick,
    evaluateRows_eq_ok_iff hr hnan hvalid hmem (fun k hk i hi => hc k hk i (hmem i hi)) hordered hfree]
  refine Eq.congr_left (Result.mapM_congr ?_)
  rw [List.forall₂_map_left_iff, List.forall₂_same]
  intro j hj
  obtain ⟨-, hkey⟩ := Relation.mem_arrangedAt.mp hj
  rw [Relation.cells_pick (hpositions j hj)] at hkey
  rw [answer, Relation.positionsOf_congr hkey, answerAmong_perm hperm]

/-- A rearranged relation is evaluated row by row. -/
theorem evaluate_pick_eq_ok_iff (hr : r.WellFormed) (hv : validate r.schema spec = .ok frame)
    (hnan : r.NaNFree spec.orderBy)
    (hfree : spec.function.OrderFree (frame.getD spec.defaultFrame))
    (horder : order.Perm (List.range r.size)) : evaluate (r.pick order) spec = .ok values ↔
      r.Comparable spec.orderBy ∧
        order.mapM (answer r spec (frame.getD spec.defaultFrame)) = .ok values := by
  have hin := Relation.lt_size_of_perm horder
  have hvalid := validate_eq_ok hv
  rw [evaluate_eq_ok_iff (hr.pick hin) hv (hnan.pick hin), comparable_pick_iff horder,
    Relation.size_pick]
  refine and_congr_right fun hc => ?_
  have hclass : ∀ j, (∃ results, resultsAt (r.pick order) spec frame
      ((r.pick order).cells spec.partitionBy j) = .ok results ∧
        HoldsAt (r.pick order) spec ((r.pick order).cells spec.partitionBy j) values results) ↔
      ∀ j' ∈ (r.pick order).arrangedAt spec.partitionBy spec.orderBy
        ((r.pick order).cells spec.partitionBy j), ∃ v, values[j']? = some v ∧
          answer r spec (frame.getD spec.defaultFrame) (Relation.placeAt order j') = .ok v := by
    intro j
    simp only [resultsAt_pick_eq_ok_iff hr hnan hvalid hfree hc horder]
    exact Result.exists_mapM_eq_map_iff
  simp only [hclass, Result.mapM_eq_ok, List.forall₂_iff_get]
  constructor
  · rintro ⟨hlength, hvalues⟩
    refine ⟨hlength.symm, fun j hj hj' => ?_⟩
    have hself := (hr.pick hin).sameKeys_cells (by simpa using hj) hvalid.partitionColumns
    obtain ⟨v, hv, hanswer⟩ := hvalues j hj j (Relation.mem_arrangedAt.mpr ⟨by simpa using hj, hself⟩)
    obtain ⟨_, rfl⟩ := List.getElem?_eq_some_iff.mp hv
    simpa [Relation.placeAt, hj] using hanswer
  · rintro ⟨hlength, hanswers⟩
    refine ⟨hlength.symm, fun j _ j' hj' => ?_⟩
    have hlt : j' < order.length := by simpa using (Relation.mem_arrangedAt.mp hj').1
    have hlt' : j' < values.length := hlength ▸ hlt
    exact ⟨values[j'], by simp [hlt'], by simpa [Relation.placeAt, hlt] using hanswers j' hlt hlt'⟩

/-- A relation as it stands is evaluated row by row. -/
theorem evaluate_eq_answers (hr : r.WellFormed) (hv : validate r.schema spec = .ok frame)
    (hnan : r.NaNFree spec.orderBy)
    (hfree : spec.function.OrderFree (frame.getD spec.defaultFrame)) : evaluate r spec = .ok values ↔
      r.Comparable spec.orderBy ∧
        (List.range r.size).mapM (answer r spec (frame.getD spec.defaultFrame)) = .ok values := by
  rw [← evaluate_pick_eq_ok_iff hr hv hnan hfree (.refl _), Relation.pick_range]

theorem orderFree_of_validate (hv : validate r.schema spec = .ok frame)
    (hfree : spec.function.OrderFree (spec.frame.getD spec.defaultFrame)) :
    spec.function.OrderFree (frame.getD spec.defaultFrame) := by
  cases hfunction : spec.function with
  | rank => trivial
  | denseRank => trivial
  | aggregate kind column =>
    have hkind : spec.kind.needsOrder = false := by
      simp [WindowSpec.kind, hfunction, WindowFunction.kind, FunctionKind.needsOrder]
    rwa [frame_of_validate hv hkind, Option.getD_some, ← hfunction]
  | countRows =>
    have hkind : spec.kind.needsOrder = false := by
      simp [WindowSpec.kind, hfunction, WindowFunction.kind, FunctionKind.needsOrder]
    rwa [frame_of_validate hv hkind, Option.getD_some, ← hfunction]
  | _ =>
    rw [hfunction] at hfree
    exact hfree.elim

/-- Ranks, and totals over frames that keep ties together, do not depend on the order of arrival: a
rearranged relation has the same values, rearranged in the same way, or neither has any because
something overflows. -/
theorem evaluate_rearranged (hr : r.WellFormed) (hv : validate r.schema spec = .ok frame)
    (hnan : r.NaNFree spec.orderBy)
    (hfree : spec.function.OrderFree (spec.frame.getD spec.defaultFrame))
    (horder : order.Perm (List.range r.size)) :
    (evaluate r spec = .error .overflow ∧ evaluate (r.pick order) spec = .error .overflow) ∨
    ∃ values, evaluate r spec = .ok values ∧ values.length = r.size ∧
      evaluate (r.pick order) spec = .ok (order.map fun i => values[i]?.getD .null) := by
  have hfree := orderFree_of_validate hv hfree
  have hin := Relation.lt_size_of_perm horder
  obtain ⟨type, htype⟩ := exists_outputType (validate_eq_ok hv)
  have hown : ∀ {values}, evaluate r spec = .ok values ↔ r.Comparable spec.orderBy ∧
      (List.range r.size).mapM (answer r spec (frame.getD spec.defaultFrame)) = .ok values := by
    intro values
    rw [← evaluate_pick_eq_ok_iff hr hv hnan hfree (.refl _), Relation.pick_range]
  rcases evaluate_yields hr hv htype with hover | ⟨values, hvalues, hanswers, -⟩
  · refine .inl ⟨hover, ?_⟩
    rcases evaluate_yields (hr.pick hin) hv htype with hover' | ⟨values, hvalues, -⟩
    · exact hover'
    · -- a row that answers in one arrangement answers in the other
      obtain ⟨hc, hrows⟩ := (evaluate_pick_eq_ok_iff hr hv hnan hfree horder).mp hvalues
      obtain ⟨found, hfound, -⟩ := Result.exists_mapM (P := fun _ _ => True) fun i hi => by
        obtain ⟨v, -, hv⟩ := Result.exists_of_mapM hrows (horder.mem_iff.mpr hi)
        exact ⟨v, hv, trivial⟩
      cases hover.symm.trans (hown.mpr ⟨hc, hfound⟩)
  · obtain ⟨hc, hrows⟩ := hown.mp hvalues
    refine .inr ⟨values, hvalues, hanswers.length, ?_⟩
    refine (evaluate_pick_eq_ok_iff hr hv hnan hfree horder).mpr ⟨hc, Result.mapM_eq_map fun i hi => ?_⟩
    have hall := Result.mapM_eq_ok.mp hrows
    have hlt : i < (List.range r.size).length := by simpa using hin i hi
    have hlt' : i < values.length := hall.length_eq ▸ hlt
    simpa [hlt'] using hall.get hlt hlt'

end Rearranged

/-- The total of the results of a team that differ by at most one, the best result first. -/
def nearTotals : WindowSpec :=
  ⟨.aggregate .sum "score", ["team"], [⟨"score", .desc, .last⟩],
    some ⟨.range, .preceding (.whole 1), .following (.whole 1)⟩, none⟩

/-- The last result first, and the two equal ones of the red team the other way round. -/
theorem evaluate_rearranged_nearTotals :
    validate Arrangement.teamResults.schema nearTotals = .ok nearTotals.frame ∧
    nearTotals.function.OrderFree (nearTotals.frame.getD nearTotals.defaultFrame) ∧
    evaluate Arrangement.teamResults nearTotals =
      .ok [.int 4, .null, .null, .int 4, .int 1] ∧
    evaluate (Arrangement.teamResults.pick [4, 3, 2, 0, 1]) nearTotals =
      .ok [.int 1, .int 4, .null, .int 4, .null] := by
  have hfree : nearTotals.function.OrderFree (nearTotals.frame.getD nearTotals.defaultFrame) :=
    ⟨.inl rfl, .inl rfl⟩
  have hv : validate Arrangement.teamResults.schema nearTotals = .ok nearTotals.frame := rfl
  have hvalues : evaluate Arrangement.teamResults nearTotals =
      .ok [.int 4, .null, .null, .int 4, .int 1] := by cbv
  have horder : [4, 3, 2, 0, 1].Perm (List.range Arrangement.teamResults.size) := by decide
  refine ⟨hv, hfree, hvalues, ?_⟩
  rcases evaluate_rearranged (by decide) hv (by decide) hfree horder with ⟨hover, -⟩ | ⟨values, h⟩
  · cases hover.symm.trans hvalues
  · obtain ⟨h, -, hpicked⟩ := h
    cases h.symm.trans hvalues
    exact hpicked

end Window
end OrderedRelations
