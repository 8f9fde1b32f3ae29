import OrderedRelations.Proofs.Window.RangeFrame

/-!
# Spans of range frames

Every bound of a range frame cuts an arranged partition at a spot. The two cuts of a value give
the declared frame, and a null falls back on its peers.
-/

namespace OrderedRelations.FrameExtent

variable {k : OrderKey} {type : ColumnType} {values : List Value}

/-- What the spans of one partition are computed from. -/
def view (k : OrderKey) (type : ColumnType) (values : List Value) (peers : List Span) : RangeView :=
  ⟨type, values, front values, coordinates k values, peers⟩

@[simp] theorem view_type (peers : List Span) : (view k type values peers).type = type := rfl

@[simp] theorem view_base (peers : List Span) :
    (view k type values peers).base = front values := rfl

@[simp] theorem view_coordinates (peers : List Span) :
    (view k type values peers).coordinates = coordinates k values := rfl

@[simp] theorem view_values (peers : List Span) : (view k type values peers).values = values := rfl

theorem Arranged.coordinate?_eq (h : Arranged k type values) {peers : List Span} {i : ℕ} {a : Value}
    (ha : values[i]? = some a) (hnull : a.isNull = false) :
    (view k type values peers).coordinate? i = some (.whole (k.signed a)) := by
  obtain ⟨c, hc, hplace⟩ := exists_place (view_base peers) h.levels_sorted ha hnull
  rw [view_values] at hc
  rw [hplace, view_coordinates]
  simp [coordinates, hc]

theorem front_add_settled_le (values : List Value) :
    front values + (settled values).length ≤ values.length := by
  unfold front settled
  induction values with
  | nil => simp
  | cons v rest ih =>
    cases hv : v.isNull
    · have hle := List.length_filter_le (fun v => !v.isNull) rest
      simpa [hv] using hle
    · simp only [List.takeWhile_cons, hv, if_true, List.length_cons, List.filter_cons,
        Bool.not_true, Bool.false_eq_true, if_false]
      omega

variable {peers : List Span} {i : ℕ} {a : Value} {p : Span} {bound : FrameBound}

theorem Arranged.spots_sorted (h : Arranged k type values) :
    (values.map k.spot).Pairwise (· ≤ ·) := List.pairwise_map.mpr h.sorted

theorem spot_getElem? {j : ℕ} {b : Value} (hb : values[j]? = some b) :
    (values.map k.spot)[j]? = some (k.spot b) := by
  simp [hb]

private theorem spot_of_not_null (hnull : a.isNull = false) :
    k.spot a = toLex (1, k.signed a + 0) := by
  rw [OrderKey.spot, k.level_of_not_null hnull, Int.add_zero]

/-- A bound with a distance starts the frame of a value at the spot that lies so far away. -/
theorem Arranged.first_spec (h : Arranged k type values) (ha : values[i]? = some a)
    (hnull : a.isNull = false) (hrun : Peers.IsRun (values.map k.spot) 0 (k.spot a) p)
    (hm : ∀ o, bound.offset? = some o → o.Measures type) {d : ℤ}
    (hd : bound.distance? type = some d) :
    ∃ first, (view k type values peers).first i p bound = .ok first ∧ 0 ≤ first ∧
      ∀ (j : ℕ) b, values[j]? = some b → (first ≤ j ↔ toLex (1, k.signed a + d) ≤ k.spot b) := by
  have hcoord : (view k type values peers).coordinate? i = some (.whole (k.signed a)) :=
    h.coordinate?_eq ha hnull
  have hsome : ∃ v ∈ values, v.isNull = false := ⟨a, List.mem_of_getElem? ha, hnull⟩
  have hcut : ∀ t, ∀ (j : ℕ) b, values[j]? = some b →
      (((front values + countBelow (coordinates k values) (.whole t) : ℕ) : ℤ) ≤ j ↔
        toLex (1, t) ≤ k.spot b) := by
    intro t j b hb
    rw [Int.ofNat_le, ← Nat.not_lt, h.lt_below_iff hsome hb t, not_lt]
  cases bound with
  | preceding o =>
    cases hd
    refine ⟨_, ?_, Int.natCast_nonneg _, hcut (k.signed a + -o.length type)⟩
    simp [RangeView.first, hcoord, target_eq (hm o rfl), Int.sub_eq_add_neg]
  | currentRow =>
    cases hd
    refine ⟨p.first, by simp [RangeView.first], hrun.le_first, ?_⟩
    intro j b hb
    rw [← spot_of_not_null hnull]
    exact hrun.first_le_iff h.spots_sorted (spot_getElem? ha) (spot_getElem? hb)
  | following o =>
    cases hd
    refine ⟨_, ?_, Int.natCast_nonneg _, hcut (k.signed a + o.length type)⟩
    simp [RangeView.first, hcoord, target_eq (hm o rfl)]
  | unboundedPreceding => cases hd
  | unboundedFollowing => cases hd

/-- A bound with a distance ends the frame of a value behind the spot that lies so far away. -/
theorem Arranged.stop_spec (h : Arranged k type values) (ha : values[i]? = some a)
    (hnull : a.isNull = false) (hrun : Peers.IsRun (values.map k.spot) 0 (k.spot a) p)
    (hm : ∀ o, bound.offset? = some o → o.Measures type) {d : ℤ}
    (hd : bound.distance? type = some d) :
    ∃ stop, (view k type values peers).stop i p bound = .ok stop ∧ stop ≤ values.length ∧
      ∀ (j : ℕ) b, values[j]? = some b →
        ((j : ℤ) < stop ↔ k.spot b ≤ toLex (1, k.signed a + d)) := by
  have hcoord : (view k type values peers).coordinate? i = some (.whole (k.signed a)) :=
    h.coordinate?_eq ha hnull
  have hsome : ∃ v ∈ values, v.isNull = false := ⟨a, List.mem_of_getElem? ha, hnull⟩
  have hcut : ∀ t, ∀ (j : ℕ) b, values[j]? = some b →
      ((j : ℤ) < (front values + countThrough (coordinates k values) (.whole t) : ℕ) ↔
        k.spot b ≤ toLex (1, t)) := by
    intro t j b hb
    rw [Int.ofNat_lt, h.lt_through_iff hsome hb t]
  have hle : ∀ t, ((front values + countThrough (coordinates k values) (.whole t) : ℕ) : ℤ) ≤
      values.length := by
    intro t
    have hcount := countThrough_le (coordinates k values) (.whole t)
    have hfront := front_add_settled_le values
    simp only [coordinates, List.size_toArray, List.length_map] at hcount
    simp only [coordinates]
    omega
  cases bound with
  | preceding o =>
    cases hd
    refine ⟨_, ?_, hle _, hcut (k.signed a + -o.length type)⟩
    simp [RangeView.stop, hcoord, target_eq (hm o rfl), Int.sub_eq_add_neg]
  | currentRow =>
    cases hd
    refine ⟨p.stop, by simp [RangeView.stop], by simpa using hrun.stop_le, ?_⟩
    intro j b hb
    rw [← spot_of_not_null hnull]
    exact hrun.lt_stop_iff h.spots_sorted (spot_getElem? ha) (spot_getElem? hb)
  | following o =>
    cases hd
    refine ⟨_, ?_, hle _, hcut (k.signed a + o.length type)⟩
    simp [RangeView.stop, hcoord, target_eq (hm o rfl)]
  | unboundedPreceding => cases hd
  | unboundedFollowing => cases hd

/-- Of the bounds at which a frame can start, only the unbounded one has no distance. -/
private theorem no_start_distance_iff (type : ColumnType) (h : bound ≠ .unboundedFollowing) :
    (∀ d, bound.distance? type ≠ some d) ↔ bound = .unboundedPreceding := by
  cases bound <;> simp [FrameBound.distance?] at h ⊢

private theorem no_stop_distance_iff (type : ColumnType) (h : bound ≠ .unboundedPreceding) :
    (∀ d, bound.distance? type ≠ some d) ↔ bound = .unboundedFollowing := by
  cases bound <;> simp [FrameBound.distance?] at h ⊢

private theorem signed_sub (k : OrderKey) (a b : Value) :
    k.signed b - k.signed a = k.sign * (b.point - a.point) := by
  cases hd : k.descending
  · simp [OrderKey.signed, OrderKey.sign, hd]
  · simp [OrderKey.signed, OrderKey.sign, hd]
    omega

/-- What a frame holds lies between the spots of its bounds. -/
theorem holds_iff {frame : FrameSpec} (hstart : frame.start ≠ .unboundedFollowing)
    (hstop : frame.stop ≠ .unboundedPreceding) (a b : Value) : frame.Holds k type a b ↔
      (∀ d, frame.start.distance? type = some d → toLex (1, k.signed a + d) ≤ k.spot b) ∧
      ∀ d, frame.stop.distance? type = some d → k.spot b ≤ toLex (1, k.signed a + d) := by
  cases hb : b.isNull with
  | false =>
    have hlow : ∀ d, toLex (1, k.signed a + d) ≤ k.spot b ↔ d ≤ k.sign * (b.point - a.point) := by
      intro d
      rw [OrderKey.spot, k.level_of_not_null hb, Prod.Lex.toLex_le_toLex, ← signed_sub]
      simp only [Nat.lt_irrefl, true_and, false_or]
      omega
    have hhigh : ∀ d, k.spot b ≤ toLex (1, k.signed a + d) ↔ k.sign * (b.point - a.point) ≤ d := by
      intro d
      rw [OrderKey.spot, k.level_of_not_null hb, Prod.Lex.toLex_le_toLex, ← signed_sub]
      simp only [Nat.lt_irrefl, true_and, false_or]
      omega
    simp [FrameSpec.Holds, hb, hlow, hhigh]
  | true =>
    have hunbounded := no_start_distance_iff type hstart
    have hunbounded' := no_stop_distance_iff type hstop
    cases hn : k.nullsFirst with
    | true =>
      have hfirst : k.nulls = .first := by simpa [OrderKey.nullsFirst] using hn
      have hlow : ∀ d, ¬ toLex (1, k.signed a + d) ≤ k.spot b := by
        intro d
        simp [OrderKey.spot, k.level_of_null hb, hn, Prod.Lex.toLex_le_toLex]
      have hhigh : ∀ d, k.spot b ≤ toLex (1, k.signed a + d) := by
        intro d
        simp [OrderKey.spot, k.level_of_null hb, hn, Prod.Lex.toLex_le_toLex]
      simp [FrameSpec.Holds, hb, hfirst, hlow, hhigh, ← hunbounded]
    | false =>
      have hlast : k.nulls = .last := by
        cases hk : k.nulls <;> simp [OrderKey.nullsFirst, hk] at hn ⊢
      have hlow : ∀ d, toLex (1, k.signed a + d) ≤ k.spot b := by
        intro d
        simp [OrderKey.spot, k.level_of_null hb, hn, Prod.Lex.toLex_le_toLex]
      have hhigh : ∀ d, ¬ k.spot b ≤ toLex (1, k.signed a + d) := by
        intro d
        simp [OrderKey.spot, k.level_of_null hb, hn, Prod.Lex.toLex_le_toLex]
      simp [FrameSpec.Holds, hb, hlast, hlow, hhigh, ← hunbounded']

theorem Arranged.value_span (h : Arranged k type values) {frame : FrameSpec}
    (hstart : frame.start ≠ .unboundedFollowing) (hstop : frame.stop ≠ .unboundedPreceding)
    (hm : ∀ o, frame.start.offset? = some o ∨ frame.stop.offset? = some o → o.Measures type)
    (ha : values[i]? = some a) (hnull : a.isNull = false)
    (hrun : Peers.IsRun (values.map k.spot) 0 (k.spot a) p) :
    ∃ s, (view k type values peers).span frame i p = .ok s ∧ frame.Spans k type values i s := by
  obtain ⟨first, hfirst, hnonneg, hlow⟩ : ∃ first,
      (view k type values peers).first i p frame.start = .ok first ∧ 0 ≤ first ∧
        ∀ (j : ℕ) b, values[j]? = some b → (first ≤ j ↔
          ∀ d, frame.start.distance? type = some d → toLex (1, k.signed a + d) ≤ k.spot b) := by
    cases hd : frame.start.distance? type with
    | none =>
      have hunbounded := (no_start_distance_iff type hstart).mp (by simp [hd])
      exact ⟨0, by rw [hunbounded]; rfl, Int.le_refl 0, fun j b _ => by simp⟩
    | some d =>
      simpa [hd] using h.first_spec ha hnull hrun (fun o ho => hm o (.inl ho)) hd
  obtain ⟨stop, hstop', hle, hhigh⟩ : ∃ stop,
      (view k type values peers).stop i p frame.stop = .ok stop ∧ stop ≤ values.length ∧
        ∀ (j : ℕ) b, values[j]? = some b → ((j : ℤ) < stop ↔
          ∀ d, frame.stop.distance? type = some d → k.spot b ≤ toLex (1, k.signed a + d)) := by
    cases hd : frame.stop.distance? type with
    | none =>
      have hunbounded := (no_stop_distance_iff type hstop).mp (by simp [hd])
      refine ⟨values.length, by rw [hunbounded]; rfl, Int.le_refl _, fun j b hb => ?_⟩
      have hj := (List.getElem?_eq_some_iff.mp hb).1
      simpa using hj
    | some d =>
      simpa [hd] using h.stop_spec ha hnull hrun (fun o ho => hm o (.inr ho)) hd
  refine ⟨⟨first, stop⟩, by simp [RangeView.span, hfirst, hstop'], ⟨hnonneg, hle⟩, ?_, ?_⟩
  · intro a' ha' _ j b hb
    cases ha.symm.trans ha'
    rw [holds_iff hstart hstop, hlow j b hb, hhigh j b hb]
  · intro a' ha' hnull'
    cases ha.symm.trans ha'
    simp [hnull] at hnull'

theorem null_span {frame : FrameSpec} (ha : values[i]? = some a) (hnull : a.isNull = true)
    (hrun : Peers.IsRun (values.map k.spot) 0 (k.spot a) p) :
    ∃ s, (view k type values peers).span frame i p = .ok s ∧ frame.Spans k type values i s := by
  have hcoord : (view k type values peers).coordinate? i = none := coordinate?_eq_none ha hnull
  have hfirst : (view k type values peers).first i p frame.start =
      .ok (if frame.start = .unboundedPreceding then 0 else p.first) := by
    cases hb : frame.start <;> simp [RangeView.first, hcoord]
  have hstop : (view k type values peers).stop i p frame.stop =
      .ok (if frame.stop = .unboundedFollowing then (values.length : ℤ) else p.stop) := by
    cases hb : frame.stop <;> simp [RangeView.stop, hcoord]
  have hle : 0 ≤ p.first := hrun.le_first
  have hle' : p.stop ≤ values.length := by simpa using hrun.stop_le
  refine ⟨_, by rw [RangeView.span, hfirst, hstop]; rfl, ⟨?_, ?_⟩, ?_, ?_⟩
  · dsimp only
    split <;> omega
  · dsimp only
    split <;> omega
  · intro a' ha' hnull'
    cases ha.symm.trans ha'
    simp [hnull] at hnull'
  · intro a' ha' _
    refine ⟨p.first, p.stop, fun j b hb => ?_, rfl, rfl⟩
    have hcovers := hrun.covers (spot_getElem? hb)
    rw [Nat.zero_add] at hcovers
    rw [hcovers]
    constructor
    · intro hb
      rw [Value.isNull_iff.mp hb, Value.isNull_iff.mp hnull]
    · intro hspot
      rw [OrderKey.isNull_eq_of_level_eq (OrderKey.spot_inj.mp hspot).1, hnull]

/-- Every position of a sorted partition gets the declared span. -/
theorem Arranged.offsetSpans_spec (h : Arranged k type values) {frame : FrameSpec}
    (hstart : frame.start ≠ .unboundedFollowing) (hstop : frame.stop ≠ .unboundedPreceding)
    (hm : ∀ o, frame.start.offset? = some o ∨ frame.stop.offset? = some o → o.Measures type)
    (hlen : peers.length = values.length)
    (hruns : ∀ {i : ℕ} {a p}, values[i]? = some a → peers[i]? = some p →
      Peers.IsRun (values.map k.spot) 0 (k.spot a) p) :
    ∃ spans, offsetSpans k type values peers frame = .ok spans ∧ spans.length = values.length ∧
      ∀ (i : ℕ) s, spans[i]? = some s → frame.Spans k type values i s := by
  have heach : ∀ x ∈ peers.zipIdx, ∃ s, (view k type values peers).span frame x.2 x.1 = .ok s ∧
      frame.Spans k type values x.2 s := by
    intro x hx
    obtain ⟨p, i⟩ := x
    have hp : peers[i]? = some p := List.mem_zipIdx_iff_getElem?.mp hx
    have hi : i < values.length := hlen ▸ (List.getElem?_eq_some_iff.mp hp).1
    have ha : values[i]? = some values[i] := List.getElem?_eq_getElem hi
    cases hnull : values[i].isNull with
    | false => exact h.value_span hstart hstop hm ha hnull (hruns ha hp)
    | true => exact null_span ha hnull (hruns ha hp)
  obtain ⟨spans, hspans, hall⟩ := Result.exists_mapM heach
  have hlength : spans.length = values.length := by
    rw [← hall.length_eq, List.length_zipIdx, hlen]
  refine ⟨spans, ?_, hlength, ?_⟩
  · rw [offsetSpans, h.signedCoordinates_eq, Result.ok_bind]
    exact hspans
  · intro i s hs
    obtain ⟨hi, rfl⟩ := List.getElem?_eq_some_iff.mp hs
    have hi' : i < peers.zipIdx.length := hall.length_eq ▸ hi
    have hspan := hall.get hi' hi
    simpa using hspan

end OrderedRelations.FrameExtent
