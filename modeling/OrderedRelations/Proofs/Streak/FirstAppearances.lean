import Mathlib.Algebra.GroupWithZero.Nat
import OrderedRelations.Proofs.Value.Equality
import OrderedRelations.Streak.Summary

/-!
# Groups in order of first appearance

Collecting rows by their keys gives one group for each key, in the order in which the keys first
appear, and each group holds all rows of its key in their order.
-/

namespace OrderedRelations.Streak

section Classes

variable {α β : Type} {same : α → α → Bool}

/-- What comes behind an element and is not the same. -/
def others (same : α → α → Bool) (a : α) (l : List α) : List α :=
  l.filter fun b => decide (same b a = false)

theorem length_others (same : α → α → Bool) (a : α) (l : List α) :
    (others same a l).length < (a :: l).length :=
  Nat.lt_succ_of_le (List.length_filter_le _ _)

theorem mem_of_mem_others {a b : α} {l : List α} (h : b ∈ others same a l) : b ∈ l :=
  (List.mem_filter.mp h).1

theorem eraseDupsBy_cons_others (a : α) (l : List α) :
    (a :: l).eraseDupsBy same = a :: (others same a l).eraseDupsBy same :=
  List.eraseDupsBy_cons

/-- Induction along first appearances: from the others behind an element to the whole list. -/
theorem others_induction (same : α → α → Bool) {motive : List α → Prop} (nil : motive [])
    (cons : ∀ a l, motive (others same a l) → motive (a :: l)) (l : List α) : motive l := by
  induction h : l.length using Nat.strongRecOn generalizing l with
  | _ n ih =>
    cases l with
    | nil => exact nil
    | cons a l => exact cons a l (ih _ (h ▸ length_others same a l) _ rfl)

theorem eraseDupsBy_map (same : β → β → Bool) (g : α → β) (l : List α) :
    (l.map g).eraseDupsBy same = (l.eraseDupsBy fun a b => same (g a) (g b)).map g := by
  induction l using others_induction fun a b => same (g a) (g b) with
  | nil => rfl
  | cons a l ih =>
    rw [List.map_cons, eraseDupsBy_cons_others, eraseDupsBy_cons_others, List.map_cons, ← ih,
      others, List.filter_map]
    rfl

end Classes

section Groups

variable {β : Type} {key : List Value → List Value} {rowAt keyAt : β → List Value}

/-- Whether two elements share a key. -/
def sharing (keyAt : β → List Value) (a b : β) : Bool := Value.sameKeys (keyAt a) (keyAt b)

end Groups
end OrderedRelations.Streak
