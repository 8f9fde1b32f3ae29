import Mathlib.Data.List.Nodup
import Mathlib.Data.List.Pairwise
import Mathlib.Order.Lattice

/-!
# Stable sorting by ranks

A stable sort keeps what was known of the elements it does not tell apart: ties stand in the
order they had before. Comparisons that rank their elements can be chained, reversed and read
through a function.
-/

namespace OrderedRelations

/-- A comparison that ranks its elements: none stands before one that stands before it, and not
standing before is transitive. -/
structure Ranking {α : Type} (before : α → α → Bool) : Prop where
  asymm : ∀ {a b}, before a b = true → before b a = false
  negTrans : ∀ {a b c}, before a b = false → before b c = false → before a c = false

namespace Ranking

variable {α : Type} {before later : α → α → Bool}

theorem ofRank {β : Type} [LinearOrder β] (rank : α → β) :
    Ranking fun a b => decide (rank a < rank b) := by
  constructor
  · intro a b hab
    simpa using (of_decide_eq_true hab).le
  · intro a b c hab hbc
    simp only [decide_eq_false_iff_not, not_lt] at hab hbc ⊢
    exact hbc.trans hab

theorem swap (h : Ranking before) : Ranking fun a b => before b a :=
  ⟨fun hab => h.asymm hab, fun hba hcb => h.negTrans hcb hba⟩

/-- What stands before an element stands before all that it does not follow. -/
theorem of_before (h : Ranking before) {a b c : α} (hab : before a b = true)
    (hcb : before c b = false) : before a c = true := by
  by_contra hac
  have hfalse := h.negTrans (by simpa using hac) hcb
  rw [hab] at hfalse
  cases hfalse

/-- Ties of the first comparison are left to the second. -/
theorem andThen (h : Ranking before) (hl : Ranking later) :
    Ranking fun a b => before a b || (!before b a && later a b) := by
  constructor
  · intro a b hab
    cases hba : before b a with
    | true => simp [h.asymm hba, hba] at hab
    | false =>
      cases hfirst : before a b with
      | true => simp
      | false =>
        have hlater : later a b = true := by simpa [hba, hfirst] using hab
        simp [hl.asymm hlater]
  · intro a b c hab hbc
    simp only [Bool.or_eq_false_iff, Bool.and_eq_false_iff, Bool.not_eq_false'] at hab hbc ⊢
    refine ⟨h.negTrans hab.1 hbc.1, ?_⟩
    cases hca : before c a with
    | true => exact .inl rfl
    | false =>
      have hba : before b a = false := h.negTrans hbc.1 hca
      have hcb : before c b = false := h.negTrans hca hab.1
      simp only [hba, hcb, Bool.false_eq_true, false_or] at hab hbc
      exact .inr (hl.negTrans hab.2 hbc.2)

end Ranking

private theorem not_pair_sublist_swap {α : Type} {xs : List α} (hn : xs.Nodup) {a b : α}
    (hab : [a, b].Sublist xs) : ¬ [b, a].Sublist xs := by
  induction hn with
  | nil => simp at hab
  | @cons x xs hx _ ih =>
    intro hba
    have hmem : ∀ {c d}, [c, d].Sublist (x :: xs) → d ∈ xs := by
      intro c d hcd
      rcases List.sublist_cons_iff.mp hcd with h | ⟨_, h, ht⟩
      · exact h.subset (by simp)
      · cases h
        exact ht.subset (by simp)
    have hout : ∀ {c d}, [c, d].Sublist (x :: xs) → x ≠ c → [c, d].Sublist xs := by
      intro c d hcd hc
      rcases List.sublist_cons_iff.mp hcd with h | ⟨_, h, -⟩
      · exact h
      · cases h
        exact absurd rfl hc
    exact ih (hout hab (hx a (hmem hba))) (hout hba (hx b (hmem hab)))

private theorem pair_sublist_or_swap {α : Type} {xs : List α} {a b : α} (ha : a ∈ xs) (hb : b ∈ xs)
    (hab : a ≠ b) : [a, b].Sublist xs ∨ [b, a].Sublist xs := by
  have hall : xs.Pairwise fun a b => [a, b].Sublist xs ∨ [b, a].Sublist xs :=
    List.pairwise_iff_forall_sublist.mpr fun h => .inl h
  have hsymm : Std.Symm fun a b => [a, b].Sublist xs ∨ [b, a].Sublist xs := ⟨fun _ _ => Or.symm⟩
  exact hall.forall ha hb hab

namespace Ranking

variable {α : Type} {before : α → α → Bool}

theorem trans_not_before (h : Ranking before) (a b c : α) (hba : (!before b a) = true)
    (hcb : (!before c b) = true) : (!before c a) = true := by
  rw [Bool.not_eq_true'] at *
  exact h.negTrans hcb hba

theorem total_not_before (h : Ranking before) (a b : α) :
    ((!before b a) || (!before a b)) = true := by
  cases hba : before b a with
  | false => simp
  | true => simp [h.asymm hba]

/-- In a sorted list no element stands before one in front of it. -/
theorem sorted_mergeSort (h : Ranking before) (xs : List α) :
    (xs.mergeSort fun a b => !before b a).Pairwise fun a b => before b a = false := by
  simpa using List.pairwise_mergeSort h.trans_not_before h.total_not_before xs

/-- Sorting brings ranks in line and leaves ties as they stood. -/
theorem pairwise_mergeSort (h : Ranking before) {R : α → α → Prop} {xs : List α} (hn : xs.Nodup)
    (hR : xs.Pairwise R) : (xs.mergeSort fun a b => !before b a).Pairwise
      fun a b => before a b = true ∨ before b a = false ∧ R a b := by
  have hperm := List.mergeSort_perm xs fun a b => !before b a
  have hsorted := h.sorted_mergeSort xs
  rw [List.pairwise_iff_forall_sublist] at hsorted ⊢
  intro a b hab
  have hba : before b a = false := by simpa using hsorted hab
  cases hfirst : before a b with
  | true => exact .inl rfl
  | false =>
    have hn' : (xs.mergeSort fun a b => !before b a).Nodup := hperm.nodup_iff.mpr hn
    have hne : a ≠ b := List.pairwise_iff_forall_sublist.mp hn' hab
    have ha : a ∈ xs := hperm.mem_iff.mp (hab.subset (by simp))
    have hb : b ∈ xs := hperm.mem_iff.mp (hab.subset (by simp))
    rcases pair_sublist_or_swap ha hb hne with hxs | hxs
    · exact .inr ⟨hba, List.pairwise_iff_forall_sublist.mp hR hxs⟩
    · have hswap := List.pair_sublist_mergeSort h.trans_not_before h.total_not_before
        (by simp [hfirst]) hxs
      exact absurd hswap (not_pair_sublist_swap hn' hab)

end Ranking

/-- In a sorted list a later element is not less. -/
theorem le_of_sorted {α : Type} [Preorder α] {xs : List α} (hsorted : xs.Pairwise (· ≤ ·)) {i j : ℕ}
    {a b : α} (hij : i ≤ j) (ha : xs[i]? = some a) (hb : xs[j]? = some b) : a ≤ b := by
  obtain ⟨hi, rfl⟩ := List.getElem?_eq_some_iff.mp ha
  obtain ⟨hj, rfl⟩ := List.getElem?_eq_some_iff.mp hb
  rcases Nat.eq_or_lt_of_le hij with rfl | hlt
  · exact le_refl _
  · exact List.pairwise_iff_getElem.mp hsorted i j hi hj hlt

end OrderedRelations
