import OrderedRelations.Proofs.Window.RangeSpans
import OrderedRelations.Window.FrameAggregate

/-!
# Spans in order

The spans of an arranged partition stay inside it, and both of their ends go forward from position
to position: those of row frames by counting, those of peers by runs, and those of offsets because
every bound cuts the partition at a spot that moves on with the value.
-/

namespace OrderedRelations

/-- A span whose ends lie in a partition of `n` rows. -/
structure Span.Within (n : ℕ) (s : Span) : Prop where
  first_nonneg : 0 ≤ s.first
  first_le : s.first ≤ n
  stop_nonneg : 0 ≤ s.stop
  stop_le : s.stop ≤ n

/-- Both ends of the second span lie where those of the first do, or behind. -/
def Span.Before (s t : Span) : Prop := s.first ≤ t.first ∧ s.stop ≤ t.stop

namespace FrameAggregate

theorem stop_le_stop {s t : Span} (h : s.Before t) : stop s ≤ stop t :=
  max_le_max h.1 h.2

/-- Spans in order let one accumulator slide over them. -/
theorem isMonotone_of_pairwise {first last : ℤ} {spans : List Span}
    (hstart : ∀ s ∈ spans, first ≤ s.first ∧ last ≤ stop s)
    (hordered : spans.Pairwise Span.Before) : isMonotone first last spans = true := by
  induction spans generalizing first last with
  | nil => rfl
  | cons s rest ih =>
    obtain ⟨hhead, htail⟩ := List.pairwise_cons.mp hordered
    have hs := hstart s (by simp)
    have hrest := ih (fun t ht => ⟨(hhead t ht).1, stop_le_stop (hhead t ht)⟩) htail
    simp [isMonotone, hs, hrest]

end FrameAggregate

namespace Peers

/-- Peers of consecutive runs: each span is a stretch of its run's length. -/
theorem spansOfRuns_spec (start : ℕ) (lengths : List ℕ) :
    (∀ s ∈ spansOfRuns start lengths, (start : ℤ) ≤ s.first ∧ s.first < s.stop ∧
      s.stop ≤ (start + (spansOfRuns start lengths).length : ℕ)) ∧
    (spansOfRuns start lengths).Pairwise Span.Before := by
  induction lengths generalizing start with
  | nil => simp [spansOfRuns]
  | cons length rest ih =>
    obtain ⟨hwithin, hordered⟩ := ih (start + length)
    simp only [spansOfRuns, List.length_append, List.length_replicate, ← Nat.add_assoc]
    constructor
    · intro s hs
      rcases List.mem_append.mp hs with hs | hs
      · obtain ⟨hlength, rfl⟩ := List.mem_replicate.mp hs
        dsimp only
        omega
      · have hs := hwithin s hs
        omega
    · rw [List.pairwise_append]
      refine ⟨List.pairwise_replicate.mpr (.inr ⟨Int.le_refl _, Int.le_refl _⟩), hordered, ?_⟩
      intro s hs t ht
      obtain ⟨-, rfl⟩ := List.mem_replicate.mp hs
      have ht := hwithin t ht
      exact ⟨by dsimp only; omega, by dsimp only; omega⟩

theorem spans_within (keys : List (List Value)) :
    ∀ s ∈ spans keys, s.Within keys.length := by
  intro s hs
  have hlength := length_spans keys
  have hspan := (spansOfRuns_spec 0 (runLengths keys)).1 s hs
  rw [← spans, hlength] at hspan
  exact ⟨by omega, by omega, by omega, by omega⟩

theorem spans_ordered (keys : List (List Value)) : (spans keys).Pairwise Span.Before :=
  (spansOfRuns_spec 0 (runLengths keys)).2

end Peers

namespace FrameExtent

theorem rowSpans_within (n : ℕ) (frame : FrameSpec) : ∀ s ∈ rowSpans n frame, s.Within n := by
  intro s hs
  obtain ⟨i, -, rfl⟩ := List.mem_map.mp hs
  constructor <;> simp only [rowSpan, clamp] <;> omega

theorem rowSpans_ordered (n : ℕ) (frame : FrameSpec) : (rowSpans n frame).Pairwise Span.Before := by
  rw [rowSpans, List.pairwise_map]
  refine List.pairwise_lt_range.imp fun {i j} hij => ?_
  constructor
  · simp only [rowSpan, clamp, firstRow]
    cases frame.start <;> dsimp only <;> omega
  · simp only [rowSpan, clamp, stopRow]
    cases frame.stop <;> dsimp only <;> omega

theorem peerSpan_within {n : ℕ} (frame : FrameSpec) {s : Span} (h : s.Within n) :
    (peerSpan n frame s).Within n := by
  obtain ⟨hfirst, hfirst', hstop, hstop'⟩ := h
  constructor <;> simp only [peerSpan] <;> split <;> omega

theorem peerSpan_before {n : ℕ} (frame : FrameSpec) {s t : Span} (h : s.Before t) :
    (peerSpan n frame s).Before (peerSpan n frame t) := by
  obtain ⟨hfirst, hstop⟩ := h
  constructor <;> simp only [peerSpan] <;> split <;> omega

/-- Wherever its bisections end, the span of a position stays inside the partition. -/
theorem RangeView.span_within {v : RangeView} (hsize : v.base + v.coordinates.size ≤ v.values.length)
    {frame : FrameSpec} {i : ℕ} {p s : Span} (hp : p.Within v.values.length)
    (h : v.span frame i p = .ok s) : s.Within v.values.length := by
  simp only [span, Result.bind_eq_ok] at h
  obtain ⟨first, hfirst, stop, hstop, h⟩ := h
  cases h
  have hbelow := countBelow_le v.coordinates
  have hthrough := countThrough_le v.coordinates
  have hfirst : 0 ≤ first ∧ first ≤ v.values.length := by
    simp only [RangeView.first] at hfirst
    split at hfirst
    · cases hfirst
      omega
    · obtain ⟨t, -, rfl⟩ := Result.map_eq_ok.mp hfirst
      have ht := hbelow t
      omega
    · obtain ⟨t, -, rfl⟩ := Result.map_eq_ok.mp hfirst
      have ht := hbelow t
      omega
    · cases hfirst
      exact ⟨hp.first_nonneg, hp.first_le⟩
  have hstop : 0 ≤ stop ∧ stop ≤ v.values.length := by
    simp only [RangeView.stop] at hstop
    split at hstop
    · cases hstop
      omega
    · obtain ⟨t, -, rfl⟩ := Result.map_eq_ok.mp hstop
      have ht := hthrough t
      omega
    · obtain ⟨t, -, rfl⟩ := Result.map_eq_ok.mp hstop
      have ht := hthrough t
      omega
    · cases hstop
      exact ⟨hp.stop_nonneg, hp.stop_le⟩
  exact ⟨hfirst.1, hfirst.2, hstop.1, hstop.2⟩

section Cuts

variable {k : OrderKey} {type : ColumnType} {values : List Value} {peers : List Span}

/-- The spot at which a bound cuts the partition for a row: the spot of its value, moved by the
distance of the bound unless the value is null. -/
def cut (k : OrderKey) (type : ColumnType) (bound : FrameBound) (a : Value) : ℕ ×ₗ ℤ :=
  if a.isNull then k.spot a else toLex (1, k.signed a + (bound.distance? type).getD 0)

/-- Bounds cut further on for values further on, also across the block of nulls. -/
theorem cut_mono {bound : FrameBound} {a b : Value} (h : k.spot a ≤ k.spot b) :
    cut k type bound a ≤ cut k type bound b := by
  have hspot := h
  rw [OrderKey.spot, OrderKey.spot, Prod.Lex.toLex_le_toLex] at h
  unfold cut
  cases ha : a.isNull <;> cases hb : b.isNull
  · simpa [k.level_of_not_null ha, k.level_of_not_null hb, Prod.Lex.toLex_le_toLex] using h
  · simp only [k.level_of_not_null ha] at h
    simp only [Bool.false_eq_true, if_false, if_true, OrderKey.spot, Prod.Lex.toLex_le_toLex]
    rw [k.level_of_null hb] at h ⊢
    split at h
    · omega
    · simp_all
  · simp only [k.level_of_not_null hb] at h
    simp only [Bool.false_eq_true, if_false, if_true, OrderKey.spot, Prod.Lex.toLex_le_toLex]
    rw [k.level_of_null ha] at h ⊢
    split at h
    · simp_all
    · omega
  · simpa using hspot

variable {i : ℕ} {a : Value} {p : Span} {bound : FrameBound}

private theorem cut_of_spot (h : a.isNull = true ∨ bound.distance? type = none) :
    cut k type bound a = k.spot a := by
  unfold cut
  split
  · rfl
  · rename_i hnull
    have hnone := h.resolve_left hnull
    simp [OrderKey.spot, k.level_of_not_null (by simpa using hnull), hnone]

/-- A bound other than the unbounded one starts the frame of a row at its cut. -/
theorem Arranged.first_cut (h : Arranged k type values) (ha : values[i]? = some a)
    (hrun : Peers.IsRun (values.map k.spot) 0 (k.spot a) p)
    (hm : ∀ o, bound.offset? = some o → o.Measures type) (hbound : bound ≠ .unboundedPreceding) :
    ∃ first, (view k type values peers).first i p bound = .ok first ∧
      ∀ (j : ℕ) b, values[j]? = some b → (first ≤ j ↔ cut k type bound a ≤ k.spot b) := by
  have hpeers : (a.isNull = true ∨ bound.distance? type = none) →
      ∀ (j : ℕ) b, values[j]? = some b → (p.first ≤ j ↔ cut k type bound a ≤ k.spot b) := by
    intro hspot j b hb
    rw [cut_of_spot hspot]
    exact hrun.first_le_iff h.spots_sorted (spot_getElem? ha) (spot_getElem? hb)
  cases hnull : a.isNull with
  | true =>
    have hcoord : (view k type values peers).coordinate? i = none := coordinate?_eq_none ha hnull
    refine ⟨p.first, ?_, hpeers (.inl hnull)⟩
    cases bound <;> simp [RangeView.first, hcoord] at hbound ⊢
  | false =>
    cases hd : bound.distance? type with
    | none =>
      refine ⟨p.first, ?_, hpeers (.inr hd)⟩
      cases bound <;> simp [FrameBound.distance?, RangeView.first] at hd hbound ⊢
    | some d =>
      obtain ⟨first, hfirst, -, hcut⟩ := h.first_spec ha hnull hrun hm hd
      exact ⟨first, hfirst, by simpa [cut, hnull, hd] using hcut⟩

/-- A bound other than the unbounded one ends the frame of a row behind its cut. -/
theorem Arranged.stop_cut (h : Arranged k type values) (ha : values[i]? = some a)
    (hrun : Peers.IsRun (values.map k.spot) 0 (k.spot a) p)
    (hm : ∀ o, bound.offset? = some o → o.Measures type) (hbound : bound ≠ .unboundedFollowing) :
    ∃ stop, (view k type values peers).stop i p bound = .ok stop ∧
      ∀ (j : ℕ) b, values[j]? = some b → ((j : ℤ) < stop ↔ k.spot b ≤ cut k type bound a) := by
  have hpeers : (a.isNull = true ∨ bound.distance? type = none) →
      ∀ (j : ℕ) b, values[j]? = some b → ((j : ℤ) < p.stop ↔ k.spot b ≤ cut k type bound a) := by
    intro hspot j b hb
    rw [cut_of_spot hspot]
    exact hrun.lt_stop_iff h.spots_sorted (spot_getElem? ha) (spot_getElem? hb)
  cases hnull : a.isNull with
  | true =>
    have hcoord : (view k type values peers).coordinate? i = none := coordinate?_eq_none ha hnull
    refine ⟨p.stop, ?_, hpeers (.inl hnull)⟩
    cases bound <;> simp [RangeView.stop, hcoord] at hbound ⊢
  | false =>
    cases hd : bound.distance? type with
    | none =>
      refine ⟨p.stop, ?_, hpeers (.inr hd)⟩
      cases bound <;> simp [FrameBound.distance?, RangeView.stop] at hd hbound ⊢
    | some d =>
      obtain ⟨stop, hstop, -, hcut⟩ := h.stop_spec ha hnull hrun hm hd
      exact ⟨stop, hstop, by simpa [cut, hnull, hd] using hcut⟩

/-- A span inside the partition whose bounded ends are the cuts of a value. -/
structure CutSpan (k : OrderKey) (type : ColumnType) (frame : FrameSpec) (values : List Value)
    (a : Value) (s : Span) : Prop where
  within : s.Within values.length
  unbounded_first : frame.start = .unboundedPreceding → s.first = 0
  first : frame.start ≠ .unboundedPreceding → ∀ (j : ℕ) b, values[j]? = some b →
    (s.first ≤ j ↔ cut k type frame.start a ≤ k.spot b)
  unbounded_stop : frame.stop = .unboundedFollowing → s.stop = values.length
  stop : frame.stop ≠ .unboundedFollowing → ∀ (j : ℕ) b, values[j]? = some b →
    ((j : ℤ) < s.stop ↔ k.spot b ≤ cut k type frame.stop a)

/-- Spans of values further on lie further on. -/
theorem CutSpan.before {frame : FrameSpec} {b : Value} {s t : Span}
    (hs : CutSpan k type frame values a s) (ht : CutSpan k type frame values b t)
    (h : k.spot a ≤ k.spot b) : s.Before t := by
  have hat : ∀ x : ℤ, 0 ≤ x → x < values.length → ∃ (j : ℕ) (c : Value),
      (j : ℤ) = x ∧ values[j]? = some c := by
    intro x hx hlt
    have hj : x.toNat < values.length := by omega
    exact ⟨x.toNat, values[x.toNat], by omega, List.getElem?_eq_getElem hj⟩
  constructor
  · by_cases hstart : frame.start = .unboundedPreceding
    · rw [hs.unbounded_first hstart, ht.unbounded_first hstart]
    · by_contra hlt
      obtain ⟨j, c, hj, hc⟩ := hat t.first ht.within.first_nonneg (by have := hs.within.first_le; omega)
      have hcut := (ht.first hstart j c hc).mp (by omega)
      have hle := (hs.first hstart j c hc).mpr ((cut_mono h).trans hcut)
      omega
  · by_cases hstop : frame.stop = .unboundedFollowing
    · rw [hs.unbounded_stop hstop, ht.unbounded_stop hstop]
    · by_contra hlt
      obtain ⟨j, c, hj, hc⟩ := hat t.stop ht.within.stop_nonneg (by have := hs.within.stop_le; omega)
      have hcut := (hs.stop hstop j c hc).mp (by omega)
      have hle := (ht.stop hstop j c hc).mpr (hcut.trans (cut_mono h))
      omega

theorem Arranged.exists_cutSpan (h : Arranged k type values) {frame : FrameSpec}
    (ha : values[i]? = some a) (hp : p.Within values.length)
    (hrun : Peers.IsRun (values.map k.spot) 0 (k.spot a) p)
    (hm : ∀ o, frame.start.offset? = some o ∨ frame.stop.offset? = some o → o.Measures type) :
    ∃ s, (view k type values peers).span frame i p = .ok s ∧ CutSpan k type frame values a s := by
  have hfirst : ∃ first, (view k type values peers).first i p frame.start = .ok first ∧
      (frame.start = .unboundedPreceding → first = 0) ∧
      (frame.start ≠ .unboundedPreceding → ∀ (j : ℕ) b, values[j]? = some b →
        (first ≤ j ↔ cut k type frame.start a ≤ k.spot b)) := by
    by_cases hstart : frame.start = .unboundedPreceding
    · exact ⟨0, by rw [hstart]; rfl, fun _ => rfl, fun hne => absurd hstart hne⟩
    · obtain ⟨first, hfirst, hcut⟩ := h.first_cut ha hrun (fun o ho => hm o (.inl ho)) hstart
      exact ⟨first, hfirst, fun heq => absurd heq hstart, fun _ => hcut⟩
  have hstop : ∃ stop, (view k type values peers).stop i p frame.stop = .ok stop ∧
      (frame.stop = .unboundedFollowing → stop = values.length) ∧
      (frame.stop ≠ .unboundedFollowing → ∀ (j : ℕ) b, values[j]? = some b →
        ((j : ℤ) < stop ↔ k.spot b ≤ cut k type frame.stop a)) := by
    by_cases hstop : frame.stop = .unboundedFollowing
    · exact ⟨values.length, by rw [hstop]; rfl, fun _ => rfl, fun hne => absurd hstop hne⟩
    · obtain ⟨stop, hstop', hcut⟩ := h.stop_cut ha hrun (fun o ho => hm o (.inr ho)) hstop
      exact ⟨stop, hstop', fun heq => absurd heq hstop, fun _ => hcut⟩
  obtain ⟨first, hfirst, hunbounded, hcut⟩ := hfirst
  obtain ⟨stop, hstop, hunbounded', hcut'⟩ := hstop
  have hspan : (view k type values peers).span frame i p = .ok ⟨first, stop⟩ := by
    simp [RangeView.span, hfirst, hstop]
  have hsize : (view k type values peers).base + (view k type values peers).coordinates.size ≤
      (view k type values peers).values.length := by
    simpa [coordinates] using front_add_settled_le values
  exact ⟨_, hspan, RangeView.span_within hsize hp hspan, hunbounded, hcut, hunbounded', hcut'⟩

/-- The spans of offsets over a sorted partition stay inside it and are in order. -/
theorem Arranged.offsetSpans_ordered (h : Arranged k type values) {frame : FrameSpec}
    (hm : ∀ o, frame.start.offset? = some o ∨ frame.stop.offset? = some o → o.Measures type)
    (hlen : peers.length = values.length) (hwithin : ∀ p ∈ peers, p.Within values.length)
    (hruns : ∀ {i : ℕ} {a p}, values[i]? = some a → peers[i]? = some p →
      Peers.IsRun (values.map k.spot) 0 (k.spot a) p) :
    ∃ spans, offsetSpans k type values peers frame = .ok spans ∧ spans.length = values.length ∧
      (∀ s ∈ spans, s.Within values.length) ∧ spans.Pairwise Span.Before := by
  have heach : ∀ x ∈ peers.zipIdx, ∃ s, (view k type values peers).span frame x.2 x.1 = .ok s ∧
      ∃ a, values[x.2]? = some a ∧ CutSpan k type frame values a s := by
    intro x hx
    obtain ⟨p, i⟩ := x
    have hp : peers[i]? = some p := List.mem_zipIdx_iff_getElem?.mp hx
    have hi : i < values.length := hlen ▸ (List.getElem?_eq_some_iff.mp hp).1
    have ha : values[i]? = some values[i] := List.getElem?_eq_getElem hi
    obtain ⟨s, hs, hcut⟩ := h.exists_cutSpan ha (hwithin p (List.mem_of_getElem? hp)) (hruns ha hp) hm
    exact ⟨s, hs, _, ha, hcut⟩
  obtain ⟨spans, hspans, hall⟩ := Result.exists_mapM heach
  have hlength : spans.length = values.length := by
    rw [← hall.length_eq, List.length_zipIdx, hlen]
  have hcuts : ∀ (i : ℕ) (hi : i < spans.length), ∃ a, values[i]? = some a ∧
      CutSpan k type frame values a spans[i] := by
    intro i hi
    have hi' : i < peers.zipIdx.length := hall.length_eq ▸ hi
    simpa using hall.get hi' hi
  refine ⟨spans, ?_, hlength, ?_, ?_⟩
  · rw [offsetSpans, h.signedCoordinates_eq, Result.ok_bind]
    exact hspans
  · intro s hs
    obtain ⟨i, hi, rfl⟩ := List.getElem_of_mem hs
    obtain ⟨a, -, hcut⟩ := hcuts i hi
    exact hcut.within
  · rw [List.pairwise_iff_getElem]
    intro i j hi hj hij
    obtain ⟨a, ha, hcut⟩ := hcuts i hi
    obtain ⟨b, hb, hcut'⟩ := hcuts j hj
    exact hcut.before hcut' (le_of_sorted h.spots_sorted hij.le (spot_getElem? ha) (spot_getElem? hb))

end Cuts

end FrameExtent
end OrderedRelations
