import OrderedRelations.Proofs.Window.Sliding

/-!
# Types of aggregates

Over the values of one column an aggregate answers with values of its result type or overflows; no
other failure is possible, whichever way it takes the frames. Each entry and each exit keeps what an
accumulator knows of its values: how many of them are doubles, and that extremes are among them.
-/

namespace OrderedRelations

open Result (Yields)

/-- The type of the results of an aggregate over a column. -/
def AggregateKind.resultType (type : ColumnType) : AggregateKind → ColumnType
  | .count => .integer
  | .avg => .float
  | _ => type

namespace RunningSum

/-- Inside a sum over a float column every value is a double, and over another none is. -/
def Counts (type : ColumnType) (s : RunningSum) : Prop :=
  s.floats = if type = .float then s.values else 0

theorem applyFloat_counts (s : RunningSum) (sign : ℤ) (x : Binary64) :
    (s.applyFloat sign x).floats = s.floats + sign ∧ (s.applyFloat sign x).values = s.values := by
  cases x with
  | infinity negative => cases negative <;> exact ⟨rfl, rfl⟩
  | _ => exact ⟨rfl, rfl⟩

theorem Counts.exists_apply {type : ColumnType} {s : RunningSum} (h : s.Counts type)
    (hnumeric : type.isNumeric = true) (sign : ℤ) {v : Value} (hv : v.conforms type = true) :
    ∃ t, s.apply sign v = .ok t ∧ t.Counts type := by
  cases v with
  | null => exact ⟨s, rfl, h⟩
  | int n =>
    obtain rfl : type = .integer := by simpa [Value.conforms] using hv
    exact ⟨_, rfl, h⟩
  | float x =>
    obtain rfl : type = .float := by simpa [Value.conforms] using hv
    obtain ⟨hfloats, hvalues⟩ := s.applyFloat_counts sign x
    refine ⟨_, rfl, ?_⟩
    simp only [Counts, if_true] at h ⊢
    rw [hfloats, hvalues, h]
  | _ => cases type <;> simp [Value.conforms, ColumnType.isNumeric] at hv hnumeric

/-- A sum is null, a whole number over whole numbers, and a double over doubles. -/
theorem Counts.sum_yields {type : ColumnType} {s : RunningSum} (h : s.Counts type)
    (hnumeric : type.isNumeric = true) : Yields s.sum fun v => v.conforms type = true := by
  unfold RunningSum.sum
  split
  · exact .ok rfl
  · rename_i hvalues
    split
    · rename_i hfloats
      have htype : type = .integer := by
        cases type <;> simp_all [Counts, ColumnType.isNumeric]
      exact .ok (by simp [Value.conforms, htype])
    · rename_i hfloats
      have htype : type = .float := by
        by_contra hne
        exact hfloats (h.trans (if_neg hne))
      split
      · exact .ok (by simp [Value.conforms, htype])
      · exact (Yields.orElse _).map fun x _ => by simp [Value.conforms, htype]

theorem mean_yields (s : RunningSum) : Yields s.mean fun v => v.conforms .float = true := by
  unfold mean
  split
  · exact .ok rfl
  · split
    · exact .ok rfl
    · exact (Yields.orElse _).map fun x _ => rfl

end RunningSum

namespace RunningExtreme

/-- Only a moment that leaves the calendar in UTC keeps two values of a column from being
compared. -/
theorem overtakes_yields {maximum : Bool} {type : ColumnType} {v w : Value}
    (hv : v.conforms type = true) (hnv : v.isNull = false) (hw : w.conforms type = true)
    (hnw : w.isNull = false) : Yields (overtakes maximum v w) fun _ => True := by
  cases hcv : v.comparable? with
  | none => exact .inl (by simp [overtakes, hcv])
  | some v' =>
    cases hcw : w.comparable? with
    | none => exact .inl (by simp [overtakes, hcv, hcw])
    | some w' =>
      obtain ⟨b, hb⟩ : ∃ b, overtakes maximum v w = .ok b :=
        exists_overtakes ⟨hv, by simp [hcv]⟩ hnv ⟨hw, by simp [hcw]⟩ hnw
      exact .inr ⟨b, hb, trivial⟩

theorem dropOvertaken_yields {maximum : Bool} {type : ColumnType} {v : Value} {es : List Entry}
    (hv : v.conforms type = true) (hnv : v.isNull = false)
    (h : ∀ e ∈ es, e.value.conforms type = true ∧ e.value.isNull = false) :
    Yields (dropOvertaken maximum v es) fun kept => ∀ e ∈ kept, e ∈ es := by
  induction es with
  | nil => exact .ok fun e he => he
  | cons e rest ih =>
    obtain ⟨htyped, hnull⟩ := h e (by simp)
    rw [dropOvertaken]
    refine (overtakes_yields hv hnv htyped hnull).bind fun b _ => ?_
    cases b with
    | false => exact .ok fun f hf => hf
    | true =>
      exact (ih fun f hf => h f (by simp [hf])).mono fun kept hsub f hf =>
        List.mem_cons_of_mem e (hsub f hf)

end RunningExtreme

namespace Accumulator

/-- An accumulator of a kind that only values of one column are inside. -/
inductive Typed (values : List Value) (type : ColumnType) : AggregateKind → Accumulator → Prop
  | sum (s : RunningSum) (hnumeric : type.isNumeric = true) (h : s.Counts type) :
      Typed values type .sum (sum s)
  | mean (s : RunningSum) (hnumeric : type.isNumeric = true) (h : s.Counts type) :
      Typed values type .avg (mean s)
  | count (n : ℤ) : Typed values type .count (count n)
  | extreme {kind : AggregateKind} (hkind : kind = .min ∨ kind = .max) (s : RunningExtreme)
      (hs : ∀ e ∈ s.window, e.value ∈ values ∧ e.value.isNull = false) :
      Typed values type kind (extreme s)

variable {values : List Value} {type : ColumnType} {kind : AggregateKind} {acc : Accumulator}

theorem typed_fresh (hnumeric : kind = .sum ∨ kind = .avg → type.isNumeric = true) :
    Typed values type kind (fresh kind) := by
  have hempty : RunningSum.empty.Counts type := by
    simp [RunningSum.Counts, RunningSum.empty]
  cases kind with
  | sum => exact .sum _ (hnumeric (.inl rfl)) hempty
  | avg => exact .mean _ (hnumeric (.inr rfl)) hempty
  | count => exact .count _
  | min => exact .extreme (.inl rfl) _ (by simp)
  | max => exact .extreme (.inr rfl) _ (by simp)

/-- A value of the column enters, unless it cannot be compared. -/
theorem Typed.add_yields (hvalues : ∀ v ∈ values, v.conforms type = true)
    (h : Typed values type kind acc) (p : ℤ) {v : Value} (hv : v ∈ values) :
    Yields (acc.add p v) (Typed values type kind) := by
  cases h with
  | sum s hnumeric h =>
    obtain ⟨t, ht, hcounts⟩ := h.exists_apply hnumeric 1 (hvalues v hv)
    exact .inr ⟨.sum t, by simp [add, ht], .sum t hnumeric hcounts⟩
  | mean s hnumeric h =>
    obtain ⟨t, ht, hcounts⟩ := h.exists_apply hnumeric 1 (hvalues v hv)
    exact .inr ⟨.mean t, by simp [add, ht], .mean t hnumeric hcounts⟩
  | count n => exact .ok (.count _)
  | extreme hkind s hs =>
    refine Yields.map ?_ fun t ht => .extreme hkind t ht
    unfold RunningExtreme.add
    split
    · exact .ok hs
    · rename_i hnull
      have hnull : v.isNull = false := by simpa using hnull
      have hentries : ∀ e ∈ s.window.reverse,
          e.value.conforms type = true ∧ e.value.isNull = false := by
        intro e he
        obtain ⟨hmem, hne⟩ := hs e (List.mem_reverse.mp he)
        exact ⟨hvalues _ hmem, hne⟩
      refine (RunningExtreme.dropOvertaken_yields (hvalues v hv) hnull hentries).bind ?_
      intro kept hkept
      refine .ok fun e he => ?_
      rcases List.mem_cons.mp (List.mem_reverse.mp he) with rfl | he
      · exact ⟨hv, hnull⟩
      · exact hs e (List.mem_reverse.mp (hkept e he))

theorem Typed.remove_yields (hvalues : ∀ v ∈ values, v.conforms type = true)
    (h : Typed values type kind acc) (p : ℤ) {v : Value} (hv : v ∈ values) :
    Yields (acc.remove p v) (Typed values type kind) := by
  cases h with
  | sum s hnumeric h =>
    obtain ⟨t, ht, hcounts⟩ := h.exists_apply hnumeric (-1) (hvalues v hv)
    exact .inr ⟨.sum t, by simp [remove, ht], .sum t hnumeric hcounts⟩
  | mean s hnumeric h =>
    obtain ⟨t, ht, hcounts⟩ := h.exists_apply hnumeric (-1) (hvalues v hv)
    exact .inr ⟨.mean t, by simp [remove, ht], .mean t hnumeric hcounts⟩
  | count n => exact .ok (.count _)
  | extreme hkind s hs =>
    refine .ok (.extreme hkind _ ?_)
    unfold RunningExtreme.remove
    split
    · rename_i e rest hwindow
      split
      · exact fun f hf => hs f (by simp [hwindow, hf])
      · exact hs
    · exact hs

theorem Typed.result_yields (hvalues : ∀ v ∈ values, v.conforms type = true)
    (h : Typed values type kind acc) :
    Yields acc.result fun v => v.conforms (kind.resultType type) = true := by
  cases h with
  | sum s hnumeric h => exact h.sum_yields hnumeric
  | mean s hnumeric h => exact s.mean_yields
  | count n => exact .ok rfl
  | extreme hkind s hs =>
    have htype : kind.resultType type = type := by rcases hkind with rfl | rfl <;> rfl
    rw [htype]
    refine .ok ?_
    unfold RunningExtreme.extreme
    split
    · rename_i e rest hwindow
      exact hvalues _ (hs e (by simp [hwindow])).1
    · rfl

end Accumulator

namespace FrameAggregate

open Accumulator (Typed)

variable {values : List Value} {type : ColumnType} {kind : AggregateKind} {acc : Accumulator}

theorem enter_yields (hvalues : ∀ v ∈ values, v.conforms type = true) {count next : ℕ}
    (hle : next + count ≤ values.length) (h : Typed values type kind acc) :
    Yields (enter values count next acc) (Typed values type kind) := by
  induction count generalizing next acc with
  | zero => exact .ok h
  | succ count ih =>
    have hlt : next < values.length := by omega
    rw [enter, List.getElem?_eq_getElem hlt, Result.orElse_some, Result.ok_bind]
    exact (h.add_yields hvalues next (List.getElem_mem hlt)).bind fun acc' hacc' =>
      ih (by omega) hacc'

theorem leave_yields (hvalues : ∀ v ∈ values, v.conforms type = true) {count next : ℕ}
    (hle : next + count ≤ values.length) (h : Typed values type kind acc) :
    Yields (leave values count next acc) (Typed values type kind) := by
  induction count generalizing next acc with
  | zero => exact .ok h
  | succ count ih =>
    have hlt : next < values.length := by omega
    rw [leave, List.getElem?_eq_getElem hlt, Result.orElse_some, Result.ok_bind]
    exact (h.remove_yields hvalues next (List.getElem_mem hlt)).bind fun acc' hacc' =>
      ih (by omega) hacc'

/-- Sliding over frames in order finds every row it reads and never refuses a frame. -/
theorem slideFrom_yields (hvalues : ∀ v ∈ values, v.conforms type = true) {frames : List Span}
    (hframes : ∀ f ∈ frames, InRows values f) {added removed : ℕ}
    (hmono : isMonotone removed added frames = true) (h : Typed values type kind acc) :
    Yields (slideFrom values added removed acc frames) fun results =>
      results.length = frames.length ∧
        ∀ v ∈ results, v.conforms (kind.resultType type) = true := by
  induction frames generalizing added removed acc with
  | nil => exact .ok ⟨rfl, by simp⟩
  | cons f rest ih =>
    obtain ⟨hnonneg, hlength⟩ := hframes f (by simp)
    have hfirst : f.first ≤ stop f := Int.le_max_left _ _
    obtain ⟨hleft, hentered, hrest⟩ := isMonotone_cons hmono
    rw [slideFrom, if_neg (by omega)]
    refine (enter_yields hvalues (by omega) h).bind fun entered hentered => ?_
    refine (leave_yields hvalues (by omega) hentered).bind fun window hwindow => ?_
    refine (hwindow.result_yields hvalues).bind fun v hv => ?_
    refine (ih (fun g hg => hframes g (by simp [hg])) hrest hwindow).bind fun results hresults => ?_
    exact .ok ⟨by simp [hresults.1], by simpa [hv] using hresults.2⟩

theorem recompute_yields (hvalues : ∀ v ∈ values, v.conforms type = true) {frames : List Span}
    (hframes : ∀ f ∈ frames, InRows values f) (h : Typed values type kind (.fresh kind)) :
    Yields (recompute values frames (.fresh kind)) fun results =>
      results.length = frames.length ∧
        ∀ v ∈ results, v.conforms (kind.resultType type) = true := by
  have heach : ∀ f ∈ frames, Yields (ofFrame values (.fresh kind) f)
      fun v => v.conforms (kind.resultType type) = true := by
    intro f hf
    obtain ⟨hnonneg, hlength⟩ := hframes f hf
    have hfirst : f.first ≤ stop f := Int.le_max_left _ _
    rw [ofFrame_eq (hframes f hf)]
    exact (enter_yields hvalues (by omega) h).bind fun acc hacc => hacc.result_yields hvalues
  exact Yields.mapM_all heach

/-- An aggregate over frames inside the rows answers with one value of its type for each frame,
unless it overflows. -/
theorem overFrames_yields (hvalues : ∀ v ∈ values, v.conforms type = true)
    (hnumeric : kind = .sum ∨ kind = .avg → type.isNumeric = true) {frames : List Span}
    (hframes : ∀ f ∈ frames, InRows values f) :
    Yields (overFrames kind values frames) fun results =>
      results.length = frames.length ∧
        ∀ v ∈ results, v.conforms (kind.resultType type) = true := by
  have hfresh : Typed values type kind (.fresh kind) := Accumulator.typed_fresh hnumeric
  unfold overFrames
  split
  · exact slideFrom_yields hvalues hframes ‹_› hfresh
  · exact recompute_yields hvalues hframes hfresh

end FrameAggregate
end OrderedRelations
