import OrderedRelations.Proofs.Window.Sliding

/-!
# Totals

What has entered a sum or a mean is the exact sum of the values of its frame, and their number. So a
sum is null exactly where its frame has no value but nulls.
-/

namespace OrderedRelations

/-- The rational number that a value adds to a sum; nulls and what is not finite add nothing. -/
def Value.exact : Value → ℚ
  | bool b => if b then 1 else 0
  | int n => n
  | float x => x.toRat?.getD 0
  | _ => 0

def Value.isFloat : Value → Bool
  | float _ => true
  | _ => false

/-- Whether a value is the infinity of a sign. -/
def Value.isInfinity (negative : Bool) : Value → Bool
  | float (.infinity sign) => sign == negative
  | _ => false

/-- The exact sum of the values of a stretch. -/
def exactSum (stretch : List Value) : ℚ := (stretch.map Value.exact).sum

/-- How many values of a stretch are not null. -/
def valueCount (stretch : List Value) : ℕ := stretch.countP fun v => !v.isNull

/-- A value enters with its exact number, and is counted under every kind that it is of. -/
theorem RunningSum.eq_of_share? {v : Value} {t : RunningSum} (h : share? 1 v = some t) :
    t = { total := v.exact
          values := if v.isNull then 0 else 1
          floats := if v.isFloat then 1 else 0
          nans := if v.isNaN then 1 else 0
          positives := if v.isInfinity false then 1 else 0
          negatives := if v.isInfinity true then 1 else 0 } := by
  have hone : ∀ n : ℤ, mkRat n 1 = n := fun n => by simp [Rat.mkRat_eq_div]
  cases v with
  | null => cases h; rfl
  | bool b =>
    cases h
    cases b <;> simp [Value.exact, Value.isNull, Value.isFloat, Value.isNaN, Value.isInfinity, hone]
  | int n =>
    cases h
    simp [Value.exact, Value.isNull, Value.isFloat, Value.isNaN, Value.isInfinity, hone]
  | float x =>
    cases h
    cases x with
    | infinity negative => cases negative <;> rfl
    | number q =>
      simp [floatShare, Value.exact, Binary64.toRat?, Value.isNull, Value.isFloat, Value.isNaN,
        Value.isInfinity, hone]
    | _ => rfl
  | _ => cases h

theorem RunningSum.apply_total {s t : RunningSum} {v : Value} (h : s.apply 1 v = .ok t) :
    t.total = s.total + v.exact ∧ t.values = s.values + (if v.isNull then 0 else 1) := by
  obtain ⟨share, hshare, rfl⟩ := apply_eq_ok.mp h
  rw [eq_of_share? hshare]
  exact ⟨rfl, rfl⟩

namespace FrameAggregate

variable {values : List Value} {kind : AggregateKind}

/-- The values between the ends of a frame. -/
def framed (values : List Value) (f : Span) : List Value :=
  (values.drop f.first.toNat).take ((stop f).toNat - f.first.toNat)

/-- Entering a sum or a mean adds up the values exactly. -/
theorem enter_total (wrap : RunningSum → Accumulator)
    (hadd : ∀ s p v, (wrap s).add p v = (s.apply 1 v).map wrap) {count next : ℕ} {s : RunningSum}
    {acc : Accumulator} (h : enter values count next (wrap s) = .ok acc) :
    ∃ t, acc = wrap t ∧ t.total = s.total + exactSum ((values.drop next).take count) ∧
      t.values = s.values + valueCount ((values.drop next).take count) := by
  induction count generalizing next s with
  | zero =>
    cases h
    exact ⟨s, rfl, by simp [exactSum], by simp [valueCount]⟩
  | succ count ih =>
    obtain ⟨v, hv, h⟩ := Result.bind_eq_ok.mp h
    obtain ⟨acc', hacc', h⟩ := Result.bind_eq_ok.mp h
    rw [hadd] at hacc'
    obtain ⟨s', hs', rfl⟩ := Result.map_eq_ok.mp hacc'
    obtain ⟨t, rfl, htotal, hcount⟩ := ih h
    obtain ⟨htotal', hcount'⟩ := RunningSum.apply_total hs'
    obtain ⟨hlt, rfl⟩ := List.getElem?_eq_some_iff.mp (Result.orElse_eq_ok.mp hv)
    refine ⟨t, rfl, ?_, ?_⟩
    · rw [List.drop_eq_getElem_cons hlt, List.take_succ_cons, htotal, htotal', exactSum, exactSum,
        List.map_cons, List.sum_cons, add_assoc]
    · rw [List.drop_eq_getElem_cons hlt, List.take_succ_cons, hcount, hcount', valueCount,
        valueCount, List.countP_cons]
      cases values[next].isNull <;> simp; omega

theorem enter_framed (wrap : RunningSum → Accumulator)
    (hadd : ∀ s p v, (wrap s).add p v = (s.apply 1 v).map wrap) {f : Span} {acc : Accumulator}
    (h : enter values ((stop f).toNat - f.first.toNat) f.first.toNat (wrap .empty) = .ok acc) :
    ∃ t, acc = wrap t ∧ t.total = exactSum (framed values f) ∧
      t.values = valueCount (framed values f) := by
  obtain ⟨t, ht, htotal, hcount⟩ := enter_total wrap hadd h
  rw [RunningSum.empty, zero_add] at htotal hcount
  exact ⟨t, ht, htotal, hcount⟩

theorem overFrames_eq_recompute (hfits : Fits values kind) {frames : List Span}
    (hframes : ∀ f ∈ frames, InRows values f) :
    overFrames kind values frames = recompute values frames (.fresh kind) := by
  unfold overFrames
  split
  · rename_i hmono
    rw [slide_eq hfits hframes, forward_of_isMonotone hmono]
    simp [hmono]
  · rfl

end FrameAggregate
end OrderedRelations
