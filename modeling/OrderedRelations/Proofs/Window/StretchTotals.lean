import Mathlib.Data.List.Perm.Basic
import OrderedRelations.Proofs.Window.Totals

/-!
# Totals without order

Sums are exact until they are rounded once, so the sum, the mean and the number of the values of a
stretch are the same in whatever order the values enter.
-/

namespace OrderedRelations

/-- The aggregates that take their values in any order. -/
def AggregateKind.IsTotal (kind : AggregateKind) : Prop := kind = .sum ∨ kind = .count ∨ kind = .avg

instance (kind : AggregateKind) : Decidable kind.IsTotal :=
  inferInstanceAs (Decidable (_ ∨ _ ∨ _))

namespace RunningSum

/-- A sum after one more value; what is not a number adds nothing. -/
def plusValue (s : RunningSum) (v : Value) : RunningSum := s.plus ((share? 1 v).getD .empty)

/-- A sum after the values of a stretch. -/
def plusAll (s : RunningSum) (stretch : List Value) : RunningSum := stretch.foldl plusValue s

instance : RightCommutative plusValue := ⟨fun s _ _ => plus_right_comm s _ _⟩

theorem plusAll_perm (s : RunningSum) {stretch stretch' : List Value}
    (h : stretch.Perm stretch') : s.plusAll stretch = s.plusAll stretch' := h.foldl_eq s

theorem apply_eq_plusValue (s : RunningSum) {v : Value}
    (h : v.isNull = true ∨ v.quantity?.isSome = true) : s.apply 1 v = .ok (s.plusValue v) := by
  obtain ⟨t, ht⟩ := s.exists_apply 1 h
  obtain ⟨u, hu, -⟩ := apply_eq_ok.mp ht
  simp [apply_eq, plusValue, hu]

end RunningSum

namespace FrameAggregate

variable {values : List Value} {kind : AggregateKind}

/-- The sum, the number or the mean of the values of a stretch. -/
def totalOf (kind : AggregateKind) (stretch : List Value) : Result Value :=
  match kind with
  | .sum => (RunningSum.empty.plusAll stretch).sum
  | .count => .ok (.int (valueCount stretch))
  | .avg => (RunningSum.empty.plusAll stretch).mean
  | _ => .error .unimplemented

theorem totalOf_perm {stretch stretch' : List Value} (h : stretch.Perm stretch') :
    totalOf kind stretch = totalOf kind stretch' := by
  cases kind <;> simp only [totalOf, RunningSum.plusAll_perm _ h, valueCount, h.countP_eq]

theorem enter_eq_plusAll (wrap : RunningSum → Accumulator)
    (hadd : ∀ s p v, (wrap s).add p v = (s.apply 1 v).map wrap)
    (hvalues : ∀ v ∈ values, v.isNull = true ∨ v.quantity?.isSome = true) {count next : ℕ}
    (hle : next + count ≤ values.length) (s : RunningSum) :
    enter values count next (wrap s) =
      .ok (wrap (s.plusAll ((values.drop next).take count))) := by
  induction count generalizing next s with
  | zero => rfl
  | succ count ih =>
    have hlt : next < values.length := by omega
    rw [enter, List.getElem?_eq_getElem hlt, Result.orElse_some, Result.ok_bind, hadd,
      s.apply_eq_plusValue (hvalues _ (List.getElem_mem hlt)), Result.map_ok, Result.ok_bind,
      ih (by omega), List.drop_eq_getElem_cons hlt, List.take_succ_cons]
    rfl

theorem enter_eq_valueCount {count next : ℕ} (hle : next + count ≤ values.length) (n : ℤ) :
    enter values count next (.count n) =
      .ok (.count (n + valueCount ((values.drop next).take count))) := by
  induction count generalizing next n with
  | zero => simp [enter, valueCount]
  | succ count ih =>
    have hlt : next < values.length := by omega
    rw [enter, List.getElem?_eq_getElem hlt, Result.orElse_some, Result.ok_bind, Accumulator.add,
      Result.ok_bind, ih (by omega), List.drop_eq_getElem_cons hlt, List.take_succ_cons, valueCount,
      valueCount, List.countP_cons]
    cases values[next].isNull <;> simp; omega

/-- A frame has the total of its values. -/
theorem ofFrame_eq_totalOf (hkind : kind.IsTotal) (hfits : Fits values kind) {f : Span}
    (hf : InRows values f) : ofFrame values (.fresh kind) f = totalOf kind (framed values f) := by
  have hle : f.first.toNat + ((stop f).toNat - f.first.toNat) ≤ values.length := by
    have hfirst : f.first ≤ stop f := Int.le_max_left _ _
    have hstop := hf.2
    omega
  rw [ofFrame_eq hf]
  rcases hkind with rfl | rfl | rfl
  · have henter := enter_eq_plusAll Accumulator.sum (fun _ _ _ => rfl) hfits hle .empty
    rw [Accumulator.fresh, henter]
    rfl
  · rw [Accumulator.fresh, enter_eq_valueCount hle, Int.zero_add]
    rfl
  · have henter := enter_eq_plusAll Accumulator.mean (fun _ _ _ => rfl) hfits hle .empty
    rw [Accumulator.fresh, henter]
    rfl

/-- Totals over frames are those of the values of each frame. -/
theorem overFrames_eq_totals (hkind : kind.IsTotal) (hfits : Fits values kind) {frames : List Span}
    (hframes : ∀ f ∈ frames, InRows values f) :
    overFrames kind values frames = frames.mapM fun f => totalOf kind (framed values f) := by
  rw [overFrames_eq_recompute hfits hframes, recompute]
  refine Result.mapM_congr (List.forall₂_same.mpr fun f hf => ?_)
  exact ofFrame_eq_totalOf hkind hfits (hframes f hf)

end FrameAggregate
end OrderedRelations
