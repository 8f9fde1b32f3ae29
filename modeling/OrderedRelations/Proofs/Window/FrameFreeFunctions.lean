import Mathlib
import OrderedRelations.Proofs.Window.Agreement
import OrderedRelations.Proofs.Window.FrameOrder
import OrderedRelations.Proofs.Window.PlainFrames
import OrderedRelations.Proofs.Window.RankCounts

/-!
# Functions without a frame

Shifts, row numbers and ranks have no frame, and are computed without one. Each has the values of a
function over frames: a shift those of the only row of its frame, a row number that of the rows up to
the current one, and a rank those of two frames of ties.
-/

namespace OrderedRelations

namespace FrameBound

theorem isAfter_self (p : ℤ × Binary64) : isAfter p p = false := by
  have hless : (Quantity.real p.2).less (.real p.2) = false := by
    rw [← Bool.not_eq_true, Quantity.less_iff]
    rintro ⟨a, b, ha, hb, hlt⟩
    cases ha.symm.trans hb
    exact lt_irrefl _ hlt
  simp [isAfter, hless]

end FrameBound

namespace FrameSpec

/-- The frame of the row at a bound. -/
def single (bound : FrameBound) : FrameSpec := ⟨.rows, bound, bound⟩

/-- Whole numbers that make a bound make a frame of one row. -/
theorem make_single {kind : BoundKind} {n : ℤ} {bound : FrameBound}
    (h : FrameBound.make kind (some (.whole n)) = .ok bound) :
    make .rows bound bound = .ok (single bound) := by
  obtain ⟨hfirst, hlast, p, hp, hrows⟩ : bound ≠ .unboundedFollowing ∧
      bound ≠ .unboundedPreceding ∧ ∃ p, bound.position? = some p ∧ checkRows bound = .ok () := by
    cases kind with
    | preceding =>
      obtain ⟨o, ho, rfl⟩ := Result.map_eq_ok.mp h
      obtain ⟨rfl, v, hv⟩ := FrameBound.checkOffset_eq_ok ho
      exact ⟨by simp, by simp, _, by rw [FrameBound.position?, hv]; rfl, rfl⟩
    | following =>
      obtain ⟨o, ho, rfl⟩ := Result.map_eq_ok.mp h
      obtain ⟨rfl, v, hv⟩ := FrameBound.checkOffset_eq_ok ho
      exact ⟨by simp, by simp, _, by rw [FrameBound.position?, hv]; rfl, rfl⟩
    | _ => cases h
  simp [make, single, hfirst, hlast, hp, hrows, FrameBound.isAfter_self]

end FrameSpec

namespace Window
open FrameExtent (clamp firstRow stopRow rowSpan rowSpans)

/-- A frame of one place has the value that stands there, if any. -/
theorem atEnd_clamp (values : List Value) (j : ℤ) :
    atEnd values false ⟨clamp values.length j, clamp values.length (j + 1)⟩ =
      if j < 0 then .null else values[j.toNat]?.getD .null := by
  simp only [atEnd, clamp, Bool.false_eq_true, if_false]
  split_ifs with hinside hneg hneg
  · omega
  · have hplace : min (max j 0) values.length = j := by omega
    rw [hplace]
  · rfl
  · have hout : values.length ≤ j.toNat := by omega
    rw [List.getElem?_eq_none hout]
    rfl

/-- A shift has the values of the frames that lie as far away. -/
theorem shift_eq_atEnd (values : List Value) {step : ℤ} {bound : FrameBound}
    (hfirst : ∀ i, firstRow i bound = i + step)
    (hstop : ∀ n i, stopRow n i bound = i + step + 1) :
    shift values step .null =
      (rowSpans values.length (.single bound)).map (atEnd values false) := by
  rw [shift, rowSpans, List.map_map]
  refine List.map_congr_left fun i _ => ?_
  rw [Function.comp_apply, rowSpan, FrameSpec.single, hfirst, hstop, atEnd_clamp]

/-- As many rows stand in the frame up to a row as its number says. -/
theorem running_counts (n : ℕ) :
    FrameAggregate.overFrames .count (List.replicate n (.bool true)) (rowSpans n .running) =
      .ok ((List.range n).map fun i => .int (i + 1 : ℕ)) := by
  have hwithin : ∀ f ∈ rowSpans n .running,
      FrameAggregate.InRows (List.replicate n (Value.bool true)) f := by
    intro f hf
    refine FrameAggregate.inRows_of_within ?_
    rw [List.length_replicate]
    exact FrameExtent.rowSpans_within n .running f hf
  rw [FrameAggregate.overFrames_eq_totals (.inr (.inl rfl)) trivial hwithin, rowSpans, List.mapM_map]
  refine Result.mapM_eq_map fun i hi => ?_
  have hlt := List.mem_range.mp hi
  have hspan : rowSpan n .running i = ⟨0, (i + 1 : ℕ)⟩ := by
    simp only [rowSpan, FrameSpec.running, firstRow, stopRow, clamp, Span.mk.injEq]
    omega
  have hstop : FrameAggregate.stop ⟨0, (i + 1 : ℕ)⟩ = (i + 1 : ℕ) :=
    max_eq_right (Int.natCast_nonneg _)
  have hframed : FrameAggregate.framed (List.replicate n (Value.bool true)) ⟨0, (i + 1 : ℕ)⟩ =
      List.replicate (i + 1) (.bool true) := by
    simp only [FrameAggregate.framed, hstop, Int.toNat_natCast, Int.toNat_zero, List.drop_zero,
      Nat.sub_zero, List.take_replicate]
    rw [Nat.min_eq_left hlt]
  have hcount : valueCount (List.replicate (i + 1) (Value.bool true)) = i + 1 := by
    rw [valueCount, List.countP_replicate]
    rfl
  rw [Function.comp_apply, hspan, hframed, FrameAggregate.totalOf, hcount]

variable {r : Relation} {partitionBy : List String} {orderBy : List OrderKey}

/-- Functions with and without a frame are refused alike if their arguments are. -/
theorem refusal_eq {schema : Schema} (function framed : WindowFunction) {f : FrameSpec}
    (hne : orderBy ≠ []) (hneeds : function.kind.needsOrder = true)
    (hframed : framed.kind.needsOrder = false) (hplain : f.unit = .range → f.hasOffsets = false)
    (hargument : requireNumeric schema framed = requireNumeric schema function)
    (frame : Option FrameSpec) (name name' : Option String) :
    refusal schema ⟨framed, partitionBy, orderBy, some f, name'⟩ =
      refusal schema ⟨function, partitionBy, orderBy, frame, name⟩ := by
  rw [@refusal_of_frame schema ⟨framed, partitionBy, orderBy, some f, name'⟩ hframed,
    @refusal_of_needsOrder schema ⟨function, partitionBy, orderBy, frame, name⟩ hneeds hne]
  dsimp only
  rw [Option.getD_some, checkFrame_of_plain hplain, hargument]
  cases Arrangement.checkColumns schema partitionBy orderBy with
  | error e => rfl
  | ok _ => exact Result.bind_ok _

/-- The values that a shift finds in a column are those of frames of one row. -/
theorem evaluateRows_shift {schema : Schema} {rows : List (List Value)} {column : String}
    {step : ℤ} {bound : FrameBound} (hfirst : ∀ i, firstRow i bound = i + step)
    (hstop : ∀ n i, stopRow n i bound = i + step + 1) (frame : Option FrameSpec)
    (name : Option String) :
    evaluateRows schema ⟨.firstValue column, partitionBy, orderBy, frame, name⟩ (.single bound)
        rows =
      (columnOf schema column rows).map fun values => shift values step .null := by
  cases hvalues : columnOf schema column rows with
  | error e => simp [evaluateRows, hvalues]
  | ok values =>
    have hlength : values.length = rows.length := by
      obtain ⟨i, -, hcolumn⟩ := Result.bind_eq_ok.mp hvalues
      cases hcolumn
      exact List.length_map _
    simp only [evaluateRows, hvalues, Result.ok_bind, Result.map_ok, shift_eq_atEnd values hfirst hstop,
      hlength]
    rfl

section Evaluated

variable (hne : orderBy ≠ []) (frame : Option FrameSpec) (name name' : Option String)
include hne

/-- A function that shifts a column has the first values of frames of one row. -/
theorem evaluate_shift {function : WindowFunction} {column : String} {step : ℤ} {bound : FrameBound}
    (hneeds : function.kind.needsOrder = true)
    (hargument : requireNumeric r.schema (.firstValue column) = requireNumeric r.schema function)
    (hshift : ∀ f rows, evaluateRows r.schema ⟨function, partitionBy, orderBy, frame, name⟩ f rows =
      (columnOf r.schema column rows).map fun values => shift values step .null)
    (hfirst : ∀ i, firstRow i bound = i + step) (hstop : ∀ n i, stopRow n i bound = i + step + 1) :
    evaluate r ⟨function, partitionBy, orderBy, frame, name⟩ =
      evaluate r ⟨.firstValue column, partitionBy, orderBy, some (.single bound), name'⟩ := by
  symm
  refine evaluate_congr rfl rfl (refusal_eq _ _ hne hneeds rfl (by simp [FrameSpec.single])
    hargument _ _ _)
    fun f f' parts hv hv' hparts p hp => ?_
  rw [frame_of_validate hv' rfl, hshift]
  exact evaluateRows_shift hfirst hstop _ _

/-- The number of a row is that of the rows up to it. -/
theorem evaluate_rowNumber_eq_count :
    evaluate r ⟨.rowNumber, partitionBy, orderBy, frame, name⟩ =
      evaluate r ⟨.countRows, partitionBy, orderBy, some .running, name'⟩ := by
  have hplain : FrameSpec.running.unit = .range → FrameSpec.running.hasOffsets = false := by decide
  symm
  refine evaluate_congr rfl rfl (refusal_eq .rowNumber .countRows hne rfl rfl hplain rfl _ _ _)
    fun f f' parts hv hv' hparts p hp => ?_
  rw [frame_of_validate hv' rfl]
  exact running_counts _

end Evaluated

/-- Over a frame of ties, a row counts those of its partition that do not stand on the wrong side. -/
theorem evaluate_countRows_eq (hr : r.WellFormed) (hp : ∀ name ∈ partitionBy, name ∈ r.names)
    (ho : ∀ k ∈ orderBy, k.column ∈ r.names) (hnan : r.NaNFree orderBy) (hc : r.Comparable orderBy)
    {f : FrameSpec} (hunit : f.unit = .range) (hplain : f.hasOffsets = false)
    (name : Option String) :
    evaluate r ⟨.countRows, partitionBy, orderBy, some f, name⟩ =
      .ok ((List.range r.size).map fun i => .int (((r.peerTests orderBy f i).rows
        (r.partitionOf partitionBy i)).length : ℕ)) := by
  have hv : validate r.schema ⟨.countRows, partitionBy, orderBy, some f, name⟩ = .ok (some f) := by
    have hargument : requireNumeric r.schema .countRows = .ok () := rfl
    have hrefusal : refusal r.schema ⟨.countRows, partitionBy, orderBy, some f, name⟩ = .ok () := by
      rw [refusal_of_frame rfl, Arrangement.checkColumns_eq_ok hp ho, Result.ok_bind, hargument,
        Result.ok_bind]
      exact checkFrame_of_plain fun _ => hplain
    obtain ⟨f', hv, -⟩ := Result.map_eq_ok.mp hrefusal
    rw [hv, frame_of_validate hv rfl]
    rfl
  refine (evaluate_eq_answers hr hv hnan (.inl hunit)).mpr ⟨hc, Result.mapM_eq_map fun i _ => ?_⟩
  have htrue : ∀ rows : List ℕ, valueCount (rows.map fun _ => Value.bool true) = rows.length := by
    intro rows
    rw [List.map_const', valueCount, List.countP_replicate]
    rfl
  rw [answer, answerAmong, totalAmong]
  dsimp only
  rw [Option.getD_some, FrameExtent.frameTests_eq_peerTests fun _ => hplain, Result.ok_bind,
    FrameAggregate.totalOf, htrue]
  rfl

/-- Up to the ties of a row, and these ties alone. -/
def throughTies : FrameSpec := ⟨.range, .unboundedPreceding, .currentRow⟩

def amongTies : FrameSpec := ⟨.range, .currentRow, .currentRow⟩

/-- The rows before a row are those up to its ties without the ties. -/
theorem before_add_ties (h : r.SortsBy orderBy) (members : List ℕ) (i : ℕ) :
    (members.countP fun j => r.keysBefore orderBy j i) +
        ((r.peerTests orderBy amongTies i).rows members).length =
      ((r.peerTests orderBy throughTies i).rows members).length := by
  have hasymm : ∀ j, r.keysBefore orderBy j i = true → r.keysBefore orderBy i j = false :=
    fun j hji => by simpa using (Relation.ranking_keysBefore h).asymm hji
  have hamong : ∀ j, (!(r.peerTests orderBy amongTies i).ahead j &&
      (r.peerTests orderBy amongTies i).through j) =
        (!r.keysBefore orderBy i j && !r.keysBefore orderBy j i) := by
    intro j
    simp [Relation.peerTests, amongTies, Bool.and_comm]
  have hthrough : ∀ j, (!(r.peerTests orderBy throughTies i).ahead j &&
      (r.peerTests orderBy throughTies i).through j) = !r.keysBefore orderBy i j := by
    intro j
    simp [Relation.peerTests, throughTies]
  have hbefore : ∀ j, (!r.keysBefore orderBy i j && r.keysBefore orderBy j i) =
      r.keysBefore orderBy j i := by
    intro j
    cases hji : r.keysBefore orderBy j i with
    | false => exact Bool.and_false _
    | true => simp [hasymm j hji]
  have hsplit := members.countP_eq_countP_filter_add (fun j => !r.keysBefore orderBy i j)
    fun j => r.keysBefore orderBy j i
  simp only [List.countP_filter, hbefore] at hsplit
  simp only [FrameTests.rows, hamong, hthrough, ← List.countP_eq_length_filter]
  omega

/-- A relation that has no order refuses what it arranges. -/
theorem evaluate_eq_overflow {spec : WindowSpec} {frame : Option FrameSpec}
    (hv : validate r.schema spec = .ok frame) (hc : ¬ r.Comparable spec.orderBy) :
    evaluate r spec = .error .overflow := by
  have hvalid := validate_eq_ok hv
  rw [evaluate, hv, Result.ok_bind,
    Arrangement.positions_eq_error hvalid.partitionColumns hvalid.orderColumns hc, Result.error_bind]

/-- Where nothing is refused, ranks are counted by two frames of ties. -/
theorem exists_counts (hr : r.WellFormed) (hp : ∀ name ∈ partitionBy, name ∈ r.names)
    (ho : ∀ k ∈ orderBy, k.column ∈ r.names) (hne : orderBy ≠ []) (hnan : r.NaNFree orderBy)
    (hc : r.Comparable orderBy) (frame : Option FrameSpec) (name name' : Option String) :
    ∃ through among : List ℕ, through.length = r.size ∧ among.length = r.size ∧
      evaluate r ⟨.countRows, partitionBy, orderBy, some throughTies, name'⟩ =
        .ok (through.map fun n : ℕ => .int n) ∧
      evaluate r ⟨.countRows, partitionBy, orderBy, some amongTies, name'⟩ =
        .ok (among.map fun n : ℕ => .int n) ∧
      evaluate r ⟨.rank, partitionBy, orderBy, frame, name⟩ =
        .ok (List.zipWith (fun m n : ℕ => .int (1 + m - n)) through among) := by
  have hranks := evaluate_rank_eq hr hp ho hne hnan hc frame name
  refine ⟨(List.range r.size).map fun i =>
      ((r.peerTests orderBy throughTies i).rows (r.partitionOf partitionBy i)).length,
    (List.range r.size).map fun i =>
      ((r.peerTests orderBy amongTies i).rows (r.partitionOf partitionBy i)).length,
    by simp, by simp, ?_, ?_, hranks.trans ?_⟩
  · rw [evaluate_countRows_eq hr hp ho hnan hc rfl rfl, List.map_map]
    rfl
  · rw [evaluate_countRows_eq hr hp ho hnan hc rfl rfl, List.map_map]
    rfl
  · rw [List.zipWith_map, List.zipWith_self]
    refine congrArg Except.ok (List.map_congr_left fun i _ => congrArg Value.int ?_)
    have hsplit := before_add_ties (hr.sortsBy ho hnan) (r.partitionOf partitionBy i) i
    omega

/-- A rank is one more than the rows up to the ties of its row without these ties, unless all three
are refused. -/
theorem evaluate_rank_eq_counts (hr : r.WellFormed) (hne : orderBy ≠ []) (hnan : r.NaNFree orderBy)
    (frame : Option FrameSpec) (name name' : Option String) :
    (∃ e, evaluate r ⟨.rank, partitionBy, orderBy, frame, name⟩ = .error e ∧
      evaluate r ⟨.countRows, partitionBy, orderBy, some throughTies, name'⟩ = .error e ∧
      evaluate r ⟨.countRows, partitionBy, orderBy, some amongTies, name'⟩ = .error e) ∨
    ∃ through among : List ℕ, through.length = r.size ∧ among.length = r.size ∧
      evaluate r ⟨.countRows, partitionBy, orderBy, some throughTies, name'⟩ =
        .ok (through.map fun n : ℕ => .int n) ∧
      evaluate r ⟨.countRows, partitionBy, orderBy, some amongTies, name'⟩ =
        .ok (among.map fun n : ℕ => .int n) ∧
      evaluate r ⟨.rank, partitionBy, orderBy, frame, name⟩ =
        .ok (List.zipWith (fun m n : ℕ => .int (1 + m - n)) through among) := by
  have hrefused : ∀ f : FrameSpec, (f.unit = .range → f.hasOffsets = false) →
      refusal r.schema ⟨.countRows, partitionBy, orderBy, some f, name'⟩ =
        refusal r.schema ⟨.rank, partitionBy, orderBy, frame, name⟩ :=
    fun f hplain => refusal_eq .rank .countRows hne rfl rfl hplain rfl frame name name'
  have hthrough := hrefused throughTies fun _ => rfl
  have hamong := hrefused amongTies fun _ => rfl
  cases hrefusal : refusal r.schema ⟨.rank, partitionBy, orderBy, frame, name⟩ with
  | error e =>
    exact .inl ⟨e, evaluate_of_refusal hrefusal, evaluate_of_refusal (hthrough.trans hrefusal),
      evaluate_of_refusal (hamong.trans hrefusal)⟩
  | ok _ =>
    obtain ⟨_, hv, -⟩ := Result.map_eq_ok.mp hrefusal
    obtain ⟨_, hv', -⟩ := Result.map_eq_ok.mp (hthrough.trans hrefusal)
    obtain ⟨_, hv'', -⟩ := Result.map_eq_ok.mp (hamong.trans hrefusal)
    by_cases hc : r.Comparable orderBy
    · have hvalid := validate_eq_ok hv
      exact .inr (exists_counts hr hvalid.partitionColumns hvalid.orderColumns hne hnan hc frame name
        name')
    · exact .inl ⟨_, evaluate_eq_overflow hv hc, evaluate_eq_overflow hv' hc,
        evaluate_eq_overflow hv'' hc⟩

/-- Functions without a frame have the values of functions over frames, row by row, or are refused as
these are. Values that lie some rows behind or ahead, with null beyond the partition, are the first
ones of the frame of that row, as soon as its distance makes a bound; row numbers count the rows up
to each one; and ranks are one more than the rows up to the ties of a row without these ties. -/
theorem evaluate_frame_free (hr : r.WellFormed) (hne : orderBy ≠ []) (hnan : r.NaNFree orderBy)
    (frame : Option FrameSpec) (name name' : Option String) :
    (∀ (column : String) (k : ℕ) (back : FrameBound),
      FrameBound.make .preceding (some (.whole k)) = .ok back →
        FrameSpec.make .rows back back = .ok (.single back) ∧
        evaluate r ⟨.lag column k .null, partitionBy, orderBy, frame, name⟩ =
          evaluate r ⟨.firstValue column, partitionBy, orderBy, some (.single back), name'⟩) ∧
    (∀ (column : String) (k : ℕ) (ahead : FrameBound),
      FrameBound.make .following (some (.whole k)) = .ok ahead →
        FrameSpec.make .rows ahead ahead = .ok (.single ahead) ∧
        evaluate r ⟨.lead column k .null, partitionBy, orderBy, frame, name⟩ =
          evaluate r ⟨.firstValue column, partitionBy, orderBy, some (.single ahead), name'⟩) ∧
    evaluate r ⟨.rowNumber, partitionBy, orderBy, frame, name⟩ =
      evaluate r ⟨.countRows, partitionBy, orderBy, some .running, name'⟩ ∧
    ((∃ e, evaluate r ⟨.rank, partitionBy, orderBy, frame, name⟩ = .error e ∧
      evaluate r ⟨.countRows, partitionBy, orderBy, some throughTies, name'⟩ = .error e ∧
      evaluate r ⟨.countRows, partitionBy, orderBy, some amongTies, name'⟩ = .error e) ∨
    ∃ through among : List ℕ, through.length = r.size ∧ among.length = r.size ∧
      evaluate r ⟨.countRows, partitionBy, orderBy, some throughTies, name'⟩ =
        .ok (through.map fun n : ℕ => .int n) ∧
      evaluate r ⟨.countRows, partitionBy, orderBy, some amongTies, name'⟩ =
        .ok (among.map fun n : ℕ => .int n) ∧
      evaluate r ⟨.rank, partitionBy, orderBy, frame, name⟩ =
        .ok (List.zipWith (fun m n : ℕ => .int (1 + m - n)) through among)) := by
  refine ⟨fun column k back hback => ⟨FrameSpec.make_single hback, ?_⟩,
    fun column k ahead hahead => ⟨FrameSpec.make_single hahead, ?_⟩,
    evaluate_rowNumber_eq_count hne frame name name',
    evaluate_rank_eq_counts hr hne hnan frame name name'⟩
  · obtain ⟨o, ho, rfl⟩ := Result.map_eq_ok.mp hback
    obtain ⟨rfl, -⟩ := FrameBound.checkOffset_eq_ok ho
    have hshift : ∀ f rows, evaluateRows r.schema
        ⟨.lag column k .null, partitionBy, orderBy, frame, name⟩ f rows =
          (columnOf r.schema column rows).map fun values => shift values (-(k : ℤ)) .null := by
      intro f rows
      cases hvalues : columnOf r.schema column rows <;> simp [evaluateRows, hvalues]
    exact evaluate_shift hne frame name name' rfl rfl hshift (fun i => rfl) fun n i => rfl
  · obtain ⟨o, ho, rfl⟩ := Result.map_eq_ok.mp hahead
    obtain ⟨rfl, -⟩ := FrameBound.checkOffset_eq_ok ho
    have hshift : ∀ f rows, evaluateRows r.schema
        ⟨.lead column k .null, partitionBy, orderBy, frame, name⟩ f rows =
          (columnOf r.schema column rows).map fun values => shift values k .null := by
      intro f rows
      cases hvalues : columnOf r.schema column rows <;> simp [evaluateRows, hvalues]
    exact evaluate_shift hne frame name name' rfl rfl hshift (fun i => rfl) fun n i => rfl

def byScore : List OrderKey := [⟨"score", .desc, .last⟩]

/-- The results in front of each one, their numbers, and the ranks of two ties and an open result. -/
theorem evaluate_frame_free_teamResults :
    FrameBound.make .preceding (some (.whole 1)) = .ok (.preceding (.whole 1)) ∧
    evaluate Arrangement.teamResults ⟨.firstValue "score", ["team"], byScore,
      some (.single (.preceding (.whole 1))), none⟩ = .ok [.null, .int 1, .int 2, .int 2, .null] ∧
    evaluate Arrangement.teamResults ⟨.countRows, ["team"], byScore, some .running, none⟩ =
      .ok [.int 1, .int 2, .int 3, .int 2, .int 1] ∧
    ∃ through among : List ℕ,
      evaluate Arrangement.teamResults ⟨.countRows, ["team"], byScore, some throughTies, none⟩ =
        .ok (through.map fun n : ℕ => .int n) ∧
      evaluate Arrangement.teamResults ⟨.countRows, ["team"], byScore, some amongTies, none⟩ =
        .ok (among.map fun n : ℕ => .int n) ∧
      List.zipWith (fun m n : ℕ => Value.int (1 + m - n)) through among =
        [.int 1, .int 2, .int 3, .int 1, .int 1] := by
  have hsize : Binary64.ofInt? 1 = some (.number 1) := by decide +kernel
  have hless : (Quantity.real (.number 1)).less (.whole 0) = false := by decide +kernel
  have hback : FrameBound.make .preceding (some (.whole 1)) = .ok (.preceding (.whole 1)) := by
    simp [FrameBound.make, FrameBound.checkOffset, Offset.magnitude?, hsize, hless]
  obtain ⟨hlag, -, hnumber, hrank⟩ := @evaluate_frame_free Arrangement.teamResults ["team"] byScore
    (by decide) (by simp [byScore]) (by decide) none none none
  have hprevious : evaluate Arrangement.teamResults ⟨.lag "score" 1 .null, ["team"], byScore, none,
      none⟩ = .ok [.null, .int 1, .int 2, .int 2, .null] := by cbv
  have hnumbers : evaluate Arrangement.teamResults ⟨.rowNumber, ["team"], byScore, none, none⟩ =
      .ok [.int 1, .int 2, .int 3, .int 2, .int 1] := by cbv
  have hranks : evaluate Arrangement.teamResults ⟨.rank, ["team"], byScore, none, none⟩ =
      .ok [.int 1, .int 2, .int 3, .int 1, .int 1] := by cbv
  refine ⟨hback, (hlag "score" 1 _ hback).2.symm.trans hprevious, hnumber.symm.trans hnumbers, ?_⟩
  rcases hrank with ⟨e, herror, -⟩ | ⟨through, among, -, -, hthrough, hamong, hzip⟩
  · cases herror.symm.trans hranks
  · exact ⟨through, among, hthrough, hamong, Except.ok.inj (hzip.symm.trans hranks)⟩

end Window
end OrderedRelations
