import Mathlib
import OrderedRelations.Proofs.Window.ArrangedSpans
import OrderedRelations.Proofs.Window.FrameRows
import OrderedRelations.Proofs.Window.SortedGroups

/-!
# Frames without order arithmetic

A row frame counts places, and a range frame without offsets compares rows by the keys. Over every
arranged partition both span the rows that they declare, however far the offsets of a row frame
reach beyond the partition.
-/

namespace OrderedRelations

namespace FrameSpec

/-- The places of the rows that a frame declares for the row at place `i` of some rows in order:
those between the counted distances, or those that do not stand on the wrong side of the row. -/
def Declares (frame : FrameSpec) (r : Relation) (orderBy : List OrderKey) (rows : List ℕ)
    (i j : ℕ) : Prop :=
  ∃ a b, rows[i]? = some a ∧ rows[j]? = some b ∧
    match frame.unit with
    | .rows =>
      (∀ d, frame.start.distance? .integer = some d → (i : ℤ) + d ≤ j) ∧
        ∀ d, frame.stop.distance? .integer = some d → (j : ℤ) ≤ i + d
    | .range =>
      (frame.start = .unboundedPreceding ∨ r.keysBefore orderBy b a = false) ∧
        (frame.stop = .unboundedFollowing ∨ r.keysBefore orderBy a b = false)

theorem measures_of_checkRows {bound : FrameBound} (h : checkRows bound = .ok ()) :
    ∀ o, bound.offset? = some o → o.Measures .integer := by
  intro o ho
  cases o with
  | whole n => exact .inl rfl
  | real x => simp [checkRows, ho] at h
  | duration m => simp [checkRows, ho] at h

/-- The bounds of an accepted row frame count whole rows. -/
theorem measures_of_make {start stop : FrameBound} {frame : FrameSpec}
    (h : make .rows start stop = .ok frame) :
    (∀ o, frame.start.offset? = some o → o.Measures .integer) ∧
      ∀ o, frame.stop.offset? = some o → o.Measures .integer := by
  obtain ⟨-, -, hrows, rfl⟩ := make_eq_ok_iff.mp h
  exact ⟨measures_of_checkRows (hrows rfl).1, measures_of_checkRows (hrows rfl).2⟩

end FrameSpec

namespace FrameExtent

section Arranged

variable {r : Relation} {partitionBy : List String} {orderBy : List OrderKey} {k : OrderKey}
  {type : ColumnType} {parts : List Partition} {p : Partition} {frame : FrameSpec}

/-- The rows of an arranged partition can be compared, and stand in order. -/
theorem inOrder_of_positions (hr : r.WellFormed) (hnan : r.NaNFree orderBy)
    (hparts : Arrangement.positions r partitionBy orderBy = .ok parts) (hp : p ∈ parts) :
    (∀ k ∈ orderBy, k.column ∈ r.names) ∧ (∀ i ∈ p.positions, i < r.size) ∧
      (∀ k ∈ orderBy, ∀ i ∈ p.positions, (r.cell k.column i).comparable?.isSome = true) ∧
      r.InOrder orderBy p.positions := by
  obtain ⟨hcolumns, ho, -, -⟩ := Arrangement.passed_of_positions hparts
  obtain ⟨hin, hc⟩ := Arrangement.comparable_of_mem_positions hr hcolumns ho hnan hparts hp
  exact ⟨ho, hin, hc, (Arrangement.pairwise_of_positions hr hnan hparts hp).imp fun h =>
    h.not_before (hr.sortsBy ho hnan)⟩

/-- Arranging by a key over a number line puts the values of its column in order. -/
theorem measured_of_positions (hr : r.WellFormed) (hnan : r.NaNFree [k])
    (hparts : Arrangement.positions r partitionBy [k] = .ok parts) (hp : p ∈ parts)
    (htype : r.schema.typeOf k.column = .ok type) (hmeasurable : type.isMeasurable = true) :
    Measured k type (p.positions.map (r.cell k.column)) := by
  obtain ⟨-, hin, hc, hordered⟩ := inOrder_of_positions hr hnan hparts hp
  exact hordered.measured hr hnan hin (hc k (by simp)) htype hmeasurable

/-- The spans of an arranged partition come from the tests of its frames. -/
theorem spans_of_positions (hr : r.WellFormed) (hnan : r.NaNFree orderBy)
    (hparts : Arrangement.positions r partitionBy orderBy = .ok parts) (hp : p ∈ parts)
    (hmeasures : Window.MeasuresOrder r.schema orderBy frame) (hties : frame.KeepsTies) :
    spans r.schema orderBy (Arrangement.rowsAt r p.positions) frame = p.positions.mapM fun i =>
      (r.frameTests orderBy frame i).map fun tests => tests.span p.positions := by
  obtain ⟨ho, hin, hc, hordered⟩ := inOrder_of_positions hr hnan hparts hp
  exact spans_eq_tests hr hnan ho hin hc hordered hmeasures hties

end Arranged

section Counting

variable {bound : FrameBound} (hm : ∀ o, bound.offset? = some o → o.Measures .integer)
include hm

theorem rowCount_eq {o : Offset} (ho : bound.offset? = some o) :
    rowCount o = o.length .integer := by
  cases o with
  | whole n => rfl
  | real x => rfl
  | duration m => cases hm _ ho

/-- A bound leaves out the places in front of its distance. -/
theorem firstRow_le_iff (hb : bound ≠ .unboundedFollowing) {i j : ℕ} :
    firstRow i bound ≤ j ↔ ∀ d, bound.distance? .integer = some d → (i : ℤ) + d ≤ j := by
  cases bound with
  | unboundedPreceding => simp [firstRow, FrameBound.distance?]
  | preceding o => simp [firstRow, FrameBound.distance?, rowCount_eq hm rfl, Int.sub_eq_add_neg]
  | currentRow => simp [firstRow, FrameBound.distance?]
  | following o => simp [firstRow, FrameBound.distance?, rowCount_eq hm rfl]
  | unboundedFollowing => exact absurd rfl hb

/-- A bound leaves out the places behind its distance. -/
theorem lt_stopRow_iff (hb : bound ≠ .unboundedPreceding) {n i j : ℕ} (hj : j < n) :
    (j : ℤ) < stopRow n i bound ↔ ∀ d, bound.distance? .integer = some d → (j : ℤ) ≤ i + d := by
  cases bound with
  | unboundedPreceding => exact absurd rfl hb
  | preceding o => simp [stopRow, FrameBound.distance?, rowCount_eq hm rfl, Int.sub_eq_add_neg]
  | currentRow => simp [stopRow, FrameBound.distance?]
  | following o => simp [stopRow, FrameBound.distance?, rowCount_eq hm rfl]
  | unboundedFollowing => simpa [stopRow, FrameBound.distance?] using hj

end Counting

/-- Clamping moves no end across a place of the partition. -/
theorem rowSpan_covers_iff {n i j : ℕ} (hj : j < n) (frame : FrameSpec) :
    (rowSpan n frame i).first ≤ j ∧ (j : ℤ) < (rowSpan n frame i).stop ↔
      firstRow i frame.start ≤ j ∧ (j : ℤ) < stopRow n i frame.stop := by
  simp only [rowSpan, clamp]
  omega

variable {r : Relation} {orderBy : List OrderKey} {members : List ℕ} {frame : FrameSpec}

/-- Between the cuts of its peers, a frame holds the rows that do not stand on the wrong side. -/
theorem peerTests_covers_iff (hsorts : r.SortsBy orderBy) (hordered : r.InOrder orderBy members)
    (a : ℕ) {j b : ℕ} (hb : members[j]? = some b) :
    ((r.peerTests orderBy frame a).span members).first ≤ j ∧
        (j : ℤ) < ((r.peerTests orderBy frame a).span members).stop ↔
      (frame.start = .unboundedPreceding ∨ r.keysBefore orderBy b a = false) ∧
        (frame.stop = .unboundedFollowing ∨ r.keysBefore orderBy a b = false) := by
  obtain ⟨hahead, hthrough⟩ := Relation.leads_peerTests hsorts hordered frame a
  rw [FrameTests.span, Int.ofNat_le, Int.ofNat_lt, ← Nat.not_lt, hahead.lt_countP_iff hb,
    hthrough.lt_countP_iff hb]
  by_cases hstart : frame.start = .unboundedPreceding <;>
    by_cases hstop : frame.stop = .unboundedFollowing <;>
    simp [Relation.peerTests, hstart, hstop]

variable {partitionBy : List String} {parts : List Partition} {p : Partition}

/-- Row frames span the counted places. -/
theorem rowSpans_declared (hparts : Arrangement.positions r partitionBy orderBy = .ok parts)
    (hp : p ∈ parts) (hunit : frame.unit = .rows)
    (hstart : frame.start ≠ .unboundedFollowing) (hstop : frame.stop ≠ .unboundedPreceding)
    (hm : (∀ o, frame.start.offset? = some o → o.Measures .integer) ∧
      ∀ o, frame.stop.offset? = some o → o.Measures .integer) :
    ∃ spans, FrameExtent.spans r.schema orderBy (Arrangement.rowsAt r p.positions) frame = .ok spans ∧
      spans.length = p.positions.length ∧ ∀ (i : ℕ) s, spans[i]? = some s → ∀ j : ℕ,
        (s.first ≤ j ∧ (j : ℤ) < s.stop ↔ frame.Declares r orderBy p.positions i j) := by
  have hin := Arrangement.lt_size_of_positions hparts hp
  have hlength : (Arrangement.rowsAt r p.positions).length = p.positions.length := by
    rw [rowsAt_eq_map hin, List.length_map]
  refine ⟨rowSpans p.positions.length frame, by simp only [spans, hunit, hlength], by simp [rowSpans],
    fun i s hs j => ?_⟩
  have hwithin := rowSpans_within _ frame s (List.mem_of_getElem? hs)
  obtain ⟨hi, rfl⟩ := List.getElem?_eq_some_iff.mp hs
  simp only [rowSpans, List.length_map, List.length_range] at hi
  simp only [rowSpans, List.getElem_map, List.getElem_range, FrameSpec.Declares, hunit] at hwithin ⊢
  constructor
  · intro h
    have hj : j < p.positions.length := by
      have hle := hwithin.stop_le
      omega
    rw [rowSpan_covers_iff hj, firstRow_le_iff hm.1 hstart, lt_stopRow_iff hm.2 hstop hj] at h
    exact ⟨_, _, List.getElem?_eq_getElem hi, List.getElem?_eq_getElem hj, h⟩
  · rintro ⟨-, b, -, hb, h⟩
    have hj := (List.getElem?_eq_some_iff.mp hb).1
    rwa [rowSpan_covers_iff hj, firstRow_le_iff hm.1 hstart, lt_stopRow_iff hm.2 hstop hj]

/-- Range frames without offsets span the rows that do not stand on the wrong side. -/
theorem peerSpans_declared (hr : r.WellFormed) (hnan : r.NaNFree orderBy)
    (hparts : Arrangement.positions r partitionBy orderBy = .ok parts) (hp : p ∈ parts)
    (frame : FrameSpec) (hunit : frame.unit = .range) (hplain : frame.hasOffsets = false) :
    ∃ spans, FrameExtent.spans r.schema orderBy (Arrangement.rowsAt r p.positions) frame = .ok spans ∧
      spans.length = p.positions.length ∧ ∀ (i : ℕ) s, spans[i]? = some s → ∀ j : ℕ,
        (s.first ≤ j ∧ (j : ℤ) < s.stop ↔ frame.Declares r orderBy p.positions i j) := by
  obtain ⟨ho, -, -, hordered⟩ := inOrder_of_positions hr hnan hparts hp
  have hsorts := hr.sortsBy ho hnan
  have hmeasures : Window.MeasuresOrder r.schema orderBy frame := fun _ hoffsets => by
    simp [hplain] at hoffsets
  have hspans : spans r.schema orderBy (Arrangement.rowsAt r p.positions) frame =
      .ok (p.positions.map fun a => (r.peerTests orderBy frame a).span p.positions) := by
    rw [spans_of_positions hr hnan hparts hp hmeasures (.inl hunit)]
    exact Result.mapM_eq_map fun a _ => by
      rw [frameTests_eq_peerTests fun _ => hplain, Result.map_ok]
  refine ⟨_, hspans, by rw [List.length_map], fun i s hs j => ?_⟩
  rw [List.getElem?_map, Option.map_eq_some_iff] at hs
  obtain ⟨a, ha, rfl⟩ := hs
  simp only [FrameSpec.Declares, hunit]
  constructor
  · intro h
    have hj : j < p.positions.length := by
      have hle := p.positions.countP_le_length (p := (r.peerTests orderBy frame a).through)
      simp only [FrameTests.span] at h
      omega
    have hb := List.getElem?_eq_getElem hj
    exact ⟨a, _, ha, hb, (peerTests_covers_iff hsorts hordered a hb).mp h⟩
  · rintro ⟨a', b, ha', hb, h⟩
    cases ha.symm.trans ha'
    exact (peerTests_covers_iff hsorts hordered a hb).mpr h

/-- Over every arranged partition, an accepted frame that needs no order arithmetic spans the
declared rows: a row frame the places between its distances, wherever they end, and a range frame
without offsets the rows that the keys do not place in front of its start or behind its stop. So a
function that has an order and no frame of its own reads the rows that do not stand behind the
current one. -/
theorem plain_spans_declared (hr : r.WellFormed) (hnan : r.NaNFree orderBy)
    (hparts : Arrangement.positions r partitionBy orderBy = .ok parts) (hp : p ∈ parts) :
    (∀ unit start stop frame, FrameSpec.make unit start stop = .ok frame →
      (unit = .range → frame.hasOffsets = false) →
      ∃ spans, FrameExtent.spans r.schema orderBy (Arrangement.rowsAt r p.positions) frame =
          .ok spans ∧
        spans.length = p.positions.length ∧ ∀ (i : ℕ) s, spans[i]? = some s → ∀ j : ℕ,
          (s.first ≤ j ∧ (j : ℤ) < s.stop ↔ frame.Declares r orderBy p.positions i j)) ∧
    ∀ (spec : WindowSpec) frame, spec.orderBy = orderBy → orderBy ≠ [] →
      spec.kind.needsOrder = false → spec.frame = none →
      Window.validate r.schema spec = .ok frame → ∃ f spans, frame = some f ∧
        FrameExtent.spans r.schema orderBy (Arrangement.rowsAt r p.positions) f = .ok spans ∧
        spans.length = p.positions.length ∧ ∀ (i : ℕ) s, spans[i]? = some s → ∀ j : ℕ,
          (s.first ≤ j ∧ (j : ℤ) < s.stop ↔ ∃ a b, p.positions[i]? = some a ∧
            p.positions[j]? = some b ∧ r.keysBefore orderBy a b = false) := by
  constructor
  · intro unit start stop frame hmake hplain
    cases unit with
    | rows =>
      have hm := FrameSpec.measures_of_make hmake
      obtain ⟨hstart, hstop, rfl⟩ := FrameSpec.make_eq_ok hmake
      exact rowSpans_declared hparts hp rfl hstart hstop hm
    | range =>
      obtain ⟨-, -, rfl⟩ := FrameSpec.make_eq_ok hmake
      exact peerSpans_declared hr hnan hparts hp _ rfl (hplain rfl)
  · intro spec frame horder hne hneeds hnone hv
    have hdefault : spec.defaultFrame = ⟨.range, .unboundedPreceding, .currentRow⟩ := by
      simp [WindowSpec.defaultFrame, horder, hne]
    have hframe := Window.frame_of_validate hv hneeds
    rw [hnone, Option.getD_none, hdefault] at hframe
    obtain ⟨spans, hspans, hlength, hdeclared⟩ :=
      peerSpans_declared hr hnan hparts hp ⟨.range, .unboundedPreceding, .currentRow⟩ rfl rfl
    refine ⟨_, spans, hframe, hspans, hlength, fun i s hs j => (hdeclared i s hs j).trans ?_⟩
    simp [FrameSpec.Declares]

/-- The results of a team so far, the best result first and open ones last. -/
def runningTotals : WindowSpec :=
  ⟨.aggregate .sum "score", ["team"], [⟨"score", .desc, .last⟩], none, none⟩

/-- The result in front of each one and that one. -/
def withPrevious : FrameSpec := ⟨.rows, .preceding (.whole 1), .currentRow⟩

theorem plain_spans_declared_teamResults :
    Arrangement.positions Arrangement.teamResults ["team"] runningTotals.orderBy =
      .ok [⟨[.text "red"], [0, 3, 2]⟩, ⟨[.text "blue"], [4, 1]⟩] ∧
    (FrameSpec.make .rows (.preceding (.whole 1)) .currentRow = .ok withPrevious ∧
      ∃ spans, FrameExtent.spans Arrangement.teamResults.schema runningTotals.orderBy
          (Arrangement.rowsAt Arrangement.teamResults [0, 3, 2]) withPrevious = .ok spans ∧
        spans.length = 3 ∧ ∀ (i : ℕ) s, spans[i]? = some s → ∀ j : ℕ,
          (s.first ≤ j ∧ (j : ℤ) < s.stop ↔ withPrevious.Declares Arrangement.teamResults
            runningTotals.orderBy [0, 3, 2] i j)) ∧
    Window.validate Arrangement.teamResults.schema runningTotals =
        .ok (some runningTotals.defaultFrame) ∧
      ∃ spans, FrameExtent.spans Arrangement.teamResults.schema runningTotals.orderBy
          (Arrangement.rowsAt Arrangement.teamResults [0, 3, 2]) runningTotals.defaultFrame =
            .ok spans ∧
        spans.length = 3 ∧ ∀ (i : ℕ) s, spans[i]? = some s → ∀ j : ℕ,
          (s.first ≤ j ∧ (j : ℤ) < s.stop ↔ ∃ a b, [0, 3, 2][i]? = some a ∧ [0, 3, 2][j]? = some b ∧
            Arrangement.teamResults.keysBefore runningTotals.orderBy a b = false) := by
  have hparts : Arrangement.positions Arrangement.teamResults ["team"] runningTotals.orderBy =
      .ok [⟨[.text "red"], [0, 3, 2]⟩, ⟨[.text "blue"], [4, 1]⟩] := by cbv
  have hsize : Binary64.ofInt? 1 = some (.number 1) := by decide +kernel
  have hforward : FrameBound.isAfter (1, (Binary64.number 1).neg) (1, .zero) = false := by
    decide +kernel
  have hmake : FrameSpec.make .rows (.preceding (.whole 1)) .currentRow = .ok withPrevious := by
    simp [FrameSpec.make, FrameBound.position?, Offset.magnitude?, hsize, hforward,
      FrameSpec.checkRows, FrameBound.offset?, withPrevious]
  have hv : Window.validate Arrangement.teamResults.schema runningTotals =
      .ok (some runningTotals.defaultFrame) := rfl
  obtain ⟨hplain, hdefault⟩ := plain_spans_declared (by decide) (by decide) hparts (.head _)
  refine ⟨hparts, ⟨hmake, hplain _ _ _ _ hmake (by simp)⟩, hv, ?_⟩
  obtain ⟨f, spans, hf, hspans⟩ := hdefault runningTotals _ rfl (by simp [runningTotals]) rfl rfl hv
  cases hf
  exact ⟨spans, hspans⟩

end FrameExtent
end OrderedRelations
