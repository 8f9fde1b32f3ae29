import OrderedRelations.Proofs.Window.Accumulation
import OrderedRelations.Window.FrameAggregate

/-!
# Sliding over frames

The one accumulator that slides holds, at every frame, what a fresh one would hold. So as long
as frames go forward the results are those of starting afresh, failures included.
-/

namespace OrderedRelations.FrameAggregate

variable {values : List Value} {kind : AggregateKind}

/-- Entering in two goes. -/
theorem enter_add (a b next : ℕ) (acc : Accumulator) : enter values (a + b) next acc =
    enter values a next acc >>= enter values b (next + a) := by
  induction a generalizing next acc with
  | zero => simp [enter]
  | succ a ih =>
    rw [show a + 1 + b = a + b + 1 by omega, enter, enter]
    cases orElse .outOfRange values[next]? with
    | error e => rfl
    | ok v =>
      cases hadd : acc.add next v with
      | error e => simp [hadd]
      | ok acc' => simp [hadd, ih, show next + 1 + a = next + (a + 1) by omega]

theorem enter_one (next : ℕ) (acc : Accumulator) : enter values 1 next acc =
    (do let v ← orElse .outOfRange values[next]?
        acc.add next v) := by
  simp [enter]

/-- The first value of a window leaves behind what the others alone would give. -/
theorem remove_first {n first : ℕ} {acc : Accumulator} {v : Value}
    (h : enter values (n + 1) first (.fresh kind) = .ok acc) (hv : values[first]? = some v) :
    ∃ rest, acc.remove first v = .ok rest ∧
      enter values n (first + 1) (.fresh kind) = .ok rest := by
  induction n generalizing acc with
  | zero =>
    have hadd : (Accumulator.fresh kind).add first v = .ok acc := by
      simpa [enter, hv] using h
    exact ⟨_, Accumulator.remove_fresh hadd, rfl⟩
  | succ n ih =>
    rw [enter_add, Result.bind_eq_ok] at h
    obtain ⟨acc', hacc', h⟩ := h
    obtain ⟨rest', hremove, hrest'⟩ := ih hacc'
    rw [enter_one, Result.bind_eq_ok] at h
    obtain ⟨w, hw, hadd⟩ := h
    have hne : ((first + (n + 1) : ℕ) : ℤ) ≠ first := by omega
    obtain ⟨rest, hadd', hremove'⟩ := Accumulator.remove_add hne hadd hremove
    refine ⟨rest, hremove', ?_⟩
    rw [enter_add, hrest', Result.ok_bind, enter_one, show first + 1 + n = first + (n + 1) by omega,
      hw, Result.ok_bind, hadd']

/-- Values that leave in order leave behind the shorter window. -/
theorem leave_eq_ok {c n first : ℕ} {acc : Accumulator}
    (h : enter values (c + n) first (.fresh kind) = .ok acc) :
    ∃ rest, leave values c first acc = .ok rest ∧
      enter values n (first + c) (.fresh kind) = .ok rest := by
  induction c generalizing first acc with
  | zero => exact ⟨acc, rfl, by simpa using h⟩
  | succ c ih =>
    rw [show c + 1 + n = c + n + 1 by omega] at h
    obtain ⟨v, hv⟩ : ∃ v, values[first]? = some v := by
      rw [enter, Result.bind_eq_ok] at h
      obtain ⟨v, hv, -⟩ := h
      exact ⟨v, Result.orElse_eq_ok.mp hv⟩
    obtain ⟨acc', hremove, hacc'⟩ := remove_first h hv
    obtain ⟨rest, hleave, hrest⟩ := ih hacc'
    refine ⟨rest, by simp [leave, hv, hremove, hleave], ?_⟩
    rwa [show first + 1 + c = first + (c + 1) by omega] at hrest

/-- A frame of rows that exist. -/
def InRows (values : List Value) (f : Span) : Prop := 0 ≤ f.first ∧ stop f ≤ values.length

instance (values : List Value) (f : Span) : Decidable (InRows values f) :=
  inferInstanceAs (Decidable (0 ≤ f.first ∧ stop f ≤ values.length))

/-- The frames before the first one that goes back. -/
def forward (first last : ℤ) : List Span → List Span
  | [] => []
  | f :: rest =>
    if first ≤ f.first ∧ last ≤ stop f then f :: forward f.first (stop f) rest else []

theorem forward_of_isMonotone {first last : ℤ} {frames : List Span}
    (h : isMonotone first last frames = true) : forward first last frames = frames := by
  induction frames generalizing first last with
  | nil => rfl
  | cons f rest ih =>
    simp only [isMonotone, Bool.and_eq_true, decide_eq_true_eq] at h
    rw [forward, if_pos h.1, ih h.2]

/-- A frame in order lies behind what has entered and left, and the others go on from it. -/
theorem isMonotone_cons {added removed : ℕ} {f : Span} {rest : List Span}
    (h : isMonotone removed added (f :: rest) = true) : (removed : ℤ) ≤ f.first ∧
      (added : ℤ) ≤ stop f ∧ isMonotone f.first.toNat (stop f).toNat rest = true := by
  simp only [isMonotone, Bool.and_eq_true, decide_eq_true_eq] at h
  obtain ⟨⟨hfirst, hstop⟩, hrest⟩ := h
  refine ⟨hfirst, hstop, ?_⟩
  rwa [Int.toNat_of_nonneg (by omega), Int.toNat_of_nonneg (by omega)]

theorem forward_subset (first last : ℤ) (frames : List Span) :
    ∀ f ∈ forward first last frames, f ∈ frames := by
  induction frames generalizing first last with
  | nil => exact fun f hf => hf
  | cons g rest ih =>
    rw [forward]
    split
    · intro f hf
      rcases List.mem_cons.mp hf with rfl | hf
      · exact List.mem_cons_self
      · exact List.mem_cons_of_mem g (ih _ _ f hf)
    · intro f hf
      simp at hf

theorem addFrom_eq_enter (count next : ℕ) (acc : Accumulator) :
    addFrom values count next acc = enter values count next acc := by
  induction count generalizing next acc with
  | zero => rfl
  | succ count ih =>
    have hnext : ¬ (next : ℤ) < 0 := by omega
    have hvalue : valueAt values (next : ℤ) = orElse .outOfRange values[next]? := by
      simp only [valueAt, if_neg hnext, Int.toNat_natCast]
    rw [addFrom, enter, hvalue]
    simp only [← ih, Int.natCast_add, Int.natCast_one]

theorem ofFrame_eq {f : Span} (hf : InRows values f) : ofFrame values (.fresh kind) f =
    (enter values ((stop f).toNat - f.first.toNat) f.first.toNat (.fresh kind) >>=
      Accumulator.result) := by
  obtain ⟨first, hfirst⟩ := Int.eq_ofNat_of_zero_le hf.1
  have hcount : (stop f - f.first).toNat = (stop f).toNat - f.first.toNat := by omega
  rw [ofFrame, hcount, hfirst, addFrom_eq_enter]
  rfl

theorem recompute_cons (f : Span) (rest : List Span) (fresh : Accumulator) :
    recompute values (f :: rest) fresh = (do
      let v ← ofFrame values fresh f
      let results ← recompute values rest fresh
      pure (v :: results)) := List.mapM_cons

/-- Sliding gives the results of fresh accumulators up to the first frame that goes back. -/
theorem slideFrom_eq (hfill : ∀ {first n : ℕ}, first + n ≤ values.length →
      ∃ acc, enter values n first (.fresh kind) = .ok acc) {frames : List Span}
    (hframes : ∀ f ∈ frames, InRows values f) {added removed : ℕ} {acc : Accumulator}
    (hle : removed ≤ added)
    (hacc : enter values (added - removed) removed (.fresh kind) = .ok acc) :
    slideFrom values added removed acc frames =
      (do let results ← recompute values (forward removed added frames) (.fresh kind)
          if isMonotone removed added frames then pure results
          else throw (.text .framesGoBack)) := by
  induction frames generalizing added removed acc with
  | nil => rfl
  | cons f rest ih =>
    have hf := hframes f (by simp)
    have hfirst : f.first ≤ stop f := Int.le_max_left _ _
    by_cases hback : f.first < removed ∨ stop f < added
    · have hforward : ¬ ((removed : ℤ) ≤ f.first ∧ (added : ℤ) ≤ stop f) := by omega
      have hmono : isMonotone removed added (f :: rest) = false := by
        simp only [isMonotone, Bool.and_eq_false_iff, decide_eq_false_iff_not]
        omega
      rw [slideFrom, if_pos hback, forward, if_neg hforward, hmono]
      rfl
    · have hforward : (removed : ℤ) ≤ f.first ∧ (added : ℤ) ≤ stop f := by omega
      have hcount : added - removed + ((stop f).toNat - added) =
          (f.first.toNat - removed) + ((stop f).toNat - f.first.toNat) := by omega
      obtain ⟨filled, hfilled⟩ : ∃ filled,
          enter values (added - removed + ((stop f).toNat - added)) removed (.fresh kind) =
            .ok filled := hfill (by have := hf.2; omega)
      have henter : enter values ((stop f).toNat - added) added acc = .ok filled := by
        rw [enter_add, hacc, Result.ok_bind, Nat.add_sub_cancel' hle] at hfilled
        exact hfilled
      rw [hcount] at hfilled
      obtain ⟨window, hleave, hwindow⟩ := leave_eq_ok hfilled
      rw [Nat.add_sub_cancel' (by omega)] at hwindow
      have hrest := ih (fun g hg => hframes g (by simp [hg])) (by omega) hwindow
      have hfirst' : ((f.first.toNat : ℕ) : ℤ) = f.first := Int.toNat_of_nonneg hf.1
      have hstop' : (((stop f).toNat : ℕ) : ℤ) = stop f := Int.toNat_of_nonneg (by omega)
      rw [hfirst', hstop'] at hrest
      have hmono : isMonotone removed added (f :: rest) = isMonotone f.first (stop f) rest := by
        simp [isMonotone, hforward]
      rw [slideFrom, if_neg hback, henter, Result.ok_bind, hleave, Result.ok_bind, hrest, forward,
        if_pos hforward, hmono, recompute_cons, ofFrame_eq hf, hwindow, Result.ok_bind]
      cases window.result with
      | error e => rfl
      | ok v =>
        cases recompute values (forward f.first (stop f) rest) (.fresh kind) with
        | error e => rfl
        | ok results => cases isMonotone f.first (stop f) rest <;> rfl

/-- Fitting values fill every window. -/
theorem exists_enter {acc : Accumulator} (h : Accumulator.Admits values kind acc) {n first : ℕ}
    (hle : first + n ≤ values.length) :
    ∃ acc', enter values n first acc = .ok acc' ∧ Accumulator.Admits values kind acc' := by
  induction n generalizing first acc with
  | zero => exact ⟨acc, rfl, h⟩
  | succ n ih =>
    have hlt : first < values.length := by omega
    have hv : values[first]? = some values[first] := List.getElem?_eq_getElem hlt
    obtain ⟨acc', hadd, hacc'⟩ := h.exists_add first (List.getElem_mem hlt)
    have hrest : first + 1 + n ≤ values.length := by omega
    obtain ⟨final, henter, hfinal⟩ := ih hacc' hrest
    exact ⟨final, by simp [enter, hv, hadd, henter], hfinal⟩

section Fitting

variable {frames : List Span}

/-- A frame has a result, except that a sum or a mean may be out of range. -/
theorem ofFrame_result (hfits : Fits values kind) {f : Span} (hf : InRows values f) :
    (∃ v, ofFrame values (.fresh kind) f = .ok v) ∨
      ofFrame values (.fresh kind) f = .error .overflow ∧ (kind = .sum ∨ kind = .avg) := by
  have hfirst : f.first ≤ stop f := Int.le_max_left _ _
  obtain ⟨acc, henter, hacc⟩ : ∃ acc,
      enter values ((stop f).toNat - f.first.toNat) f.first.toNat (.fresh kind) = .ok acc ∧
        Accumulator.Admits values kind acc :=
    exists_enter (Accumulator.admits_fresh hfits) (by have := hf.2; omega)
  rw [ofFrame_eq hf, henter, Result.ok_bind]
  exact hacc.result_eq

theorem recompute_result (hfits : Fits values kind) (hframes : ∀ f ∈ frames, InRows values f) :
    (∃ results, recompute values frames (.fresh kind) = .ok results ∧
      ∀ f ∈ frames, ∃ v, ofFrame values (.fresh kind) f = .ok v) ∨
    (recompute values frames (.fresh kind) = .error .overflow ∧ (kind = .sum ∨ kind = .avg) ∧
      ¬ ∀ f ∈ frames, ∃ v, ofFrame values (.fresh kind) f = .ok v) := by
  by_cases hall : ∀ f ∈ frames, ∃ v, ofFrame values (.fresh kind) f = .ok v
  · have heach : ∀ f ∈ frames, ∃ v, ofFrame values (.fresh kind) f = .ok v ∧ True :=
      fun f hf => (hall f hf).imp fun v hv => ⟨hv, trivial⟩
    obtain ⟨results, hresults, -⟩ := Result.exists_mapM heach
    exact .inl ⟨results, hresults, hall⟩
  · obtain ⟨f, hf, hno⟩ : ∃ f ∈ frames, ¬ ∃ v, ofFrame values (.fresh kind) f = .ok v := by
      simpa using hall
    have hover := (ofFrame_result hfits (hframes f hf)).resolve_left hno
    refine .inr ⟨Result.mapM_eq_error ?_ ⟨f, hf, hover.1⟩, hover.2, hall⟩
    intro g hg e he
    rcases ofFrame_result hfits (hframes g hg) with ⟨v, hv⟩ | ⟨hg, -⟩
    · rw [hv] at he
      cases he
    · rw [hg] at he
      cases he
      rfl

theorem slide_eq (hfits : Fits values kind) (hframes : ∀ f ∈ frames, InRows values f) :
    slide values frames (.fresh kind) =
      (do let results ← recompute values (forward 0 0 frames) (.fresh kind)
          if isMonotone 0 0 frames then pure results else throw (.text .framesGoBack)) := by
  have hfill : ∀ {first n : ℕ}, first + n ≤ values.length →
      ∃ acc, enter values n first (.fresh kind) = .ok acc := by
    intro first n hle
    obtain ⟨acc, hacc, -⟩ := exists_enter (Accumulator.admits_fresh hfits) hle
    exact ⟨acc, hacc⟩
  exact slideFrom_eq hfill hframes (Nat.le_refl 0) rfl

/-- Sliding over frames that go forward is starting afresh for each, down to an overflow of a
sum or a mean. Over others it refuses exactly where every frame before the first that goes back
has a result, and stops at the overflow of such a frame otherwise. So aggregates over frames are
always those of fresh accumulators. -/
theorem slide_recompute (hfits : Fits values kind) (hframes : ∀ f ∈ frames, InRows values f) :
    (slide values frames (.fresh kind) = .error (.text .framesGoBack) ↔
      isMonotone 0 0 frames = false ∧
        ∀ f ∈ forward 0 0 frames, ∃ v, ofFrame values (.fresh kind) f = .ok v) ∧
    (isMonotone 0 0 frames = false →
      slide values frames (.fresh kind) = .error (.text .framesGoBack) ∨
        slide values frames (.fresh kind) = .error .overflow ∧ (kind = .sum ∨ kind = .avg)) ∧
    (isMonotone 0 0 frames = true →
      slide values frames (.fresh kind) = recompute values frames (.fresh kind)) ∧
    ((∃ results, recompute values frames (.fresh kind) = .ok results) ∨
      recompute values frames (.fresh kind) = .error .overflow ∧ (kind = .sum ∨ kind = .avg)) ∧
    overFrames kind values frames = recompute values frames (.fresh kind) := by
  have hslide := slide_eq hfits hframes
  have hforward := recompute_result hfits fun f hf => hframes f (forward_subset 0 0 frames f hf)
  have hafresh := recompute_result hfits hframes
  have hmonotone : isMonotone 0 0 frames = true →
      slide values frames (.fresh kind) = recompute values frames (.fresh kind) := by
    intro hmono
    rw [hslide, forward_of_isMonotone hmono]
    simp [hmono]
  refine ⟨?_, ?_, hmonotone, ?_, ?_⟩
  · cases hmono : isMonotone 0 0 frames with
    | true =>
      rw [hmonotone hmono]
      rcases hafresh with ⟨results, hresults, -⟩ | ⟨herror, -, -⟩
      · simp [hresults]
      · simp [herror]
    | false =>
      rw [hslide, hmono]
      rcases hforward with ⟨results, hresults, hall⟩ | ⟨herror, -, hnot⟩
      · simp only [hresults, Result.ok_bind, Bool.false_eq_true, if_false, Result.throw_eq_error,
          true_and, true_iff]
        exact hall
      · simp only [herror, Result.error_bind, true_and, hnot, iff_false]
        exact fun h => nomatch h
  · intro hmono
    rw [hslide, hmono]
    rcases hforward with ⟨results, hresults, -⟩ | ⟨herror, hkind, -⟩
    · exact .inl (by simp [hresults])
    · exact .inr ⟨by simp [herror], hkind⟩
  · rcases hafresh with ⟨results, hresults, -⟩ | ⟨herror, hkind, -⟩
    · exact .inl ⟨results, hresults⟩
    · exact .inr ⟨herror, hkind⟩
  · unfold overFrames
    split
    · exact hmonotone ‹_›
    · rfl

theorem slide_recompute_jumps :
    Fits [.int 3, .null, .int 1] .max ∧
      isMonotone 0 0 [⟨0, 2⟩, ⟨2, 1⟩, ⟨2, 3⟩] = true ∧
      slide [.int 3, .null, .int 1] [⟨0, 2⟩, ⟨2, 1⟩, ⟨2, 3⟩] (.fresh .max) =
        recompute [.int 3, .null, .int 1] [⟨0, 2⟩, ⟨2, 1⟩, ⟨2, 3⟩] (.fresh .max) := by
  have hfits : Fits [.int 3, .null, .int 1] .max := ⟨.integer, by decide⟩
  exact ⟨hfits, rfl, (slide_recompute hfits (by decide)).2.2.1 rfl⟩

/-- Half of the least power of two that no double reaches. -/
def halfway : Value := .float (.number (mkRat (2 ^ 1023) 1))

/-- A sum that overflows in the first frame is noticed before the second frame goes back. -/
theorem slide_overflow_first :
    Fits [halfway, halfway] .sum ∧
      (∀ f ∈ [Span.mk 0 2, Span.mk 0 1], InRows [halfway, halfway] f) ∧
      isMonotone 0 0 [⟨0, 2⟩, ⟨0, 1⟩] = false ∧
      slide [halfway, halfway] [⟨0, 2⟩, ⟨0, 1⟩] (.fresh .sum) = .error .overflow ∧
      slide [halfway, halfway] [⟨0, 2⟩, ⟨0, 1⟩] (.fresh .sum) ≠ .error (.text .framesGoBack) := by
  have hover : (match slide [halfway, halfway] [⟨0, 2⟩, ⟨0, 1⟩] (.fresh .sum) with
      | .error .overflow => true
      | _ => false) = true := by decide +kernel
  split at hover
  · rename_i hslide
    refine ⟨?_, by decide, rfl, hslide, ?_⟩
    · intro v hv
      have hhalf : v = halfway := by simpa using hv
      exact .inr (by rw [hhalf]; rfl)
    · rw [hslide]
      exact fun h => nomatch h
  · cases hover

end Fitting

end OrderedRelations.FrameAggregate
