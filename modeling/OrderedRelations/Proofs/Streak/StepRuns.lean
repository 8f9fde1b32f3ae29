import Mathlib.Tactic.Linarith
import OrderedRelations.Proofs.Streak.RunStarts
import OrderedRelations.Streak.Summary

/-!
# Runs of equal steps

The coordinates of one run go up, or down, by the same step, so the greatest of them is as many
steps away from the least as there are coordinates behind the first.
-/

namespace OrderedRelations.Streak

section Runs

variable {α : Type} {breaks : α → α → Bool}

end Runs

/-- Whether a number is as extreme as another one. -/
def Beyond (maximum : Bool) (k n : ℤ) : Prop := if maximum then k ≤ n else n ≤ k

theorem Beyond.refl (maximum : Bool) (n : ℤ) : Beyond maximum n n := by
  cases maximum <;> exact le_refl n

theorem Beyond.trans {maximum : Bool} {k m n : ℤ} (h : Beyond maximum k m)
    (h' : Beyond maximum m n) : Beyond maximum k n := by
  cases maximum with
  | false => exact le_trans (show n ≤ m from h') h
  | true => exact le_trans (show k ≤ m from h) h'

end OrderedRelations.Streak
