import Mathlib.Data.Int.Order.Basic
import OrderedRelations.Proofs.Window.StableSort
import OrderedRelations.Window.FrameExtent

/-!
# Bisection

Halving finds the end of the elements that pass a test, provided that they come first. Among
ascending coordinates it counts those below a target, or those up to it.
-/

namespace OrderedRelations.FrameExtent

theorem partitionPoint_bounds {α : Type} (test : α → Bool) (xs : Array α) {low high : ℕ}
    (hlow : low ≤ high) :
    low ≤ partitionPoint test xs low high ∧ partitionPoint test xs low high ≤ high := by
  fun_induction partitionPoint test xs low high with
  | case1 low high hlt middle x hx htest ih =>
    obtain ⟨hle, hle'⟩ := ih (by omega)
    exact ⟨by omega, hle'⟩
  | case2 low high hlt middle x hx htest ih =>
    obtain ⟨hle, hle'⟩ := ih (by omega)
    exact ⟨hle, by omega⟩
  | case3 low high hlt middle hx => exact ⟨Nat.le_refl _, hlow⟩
  | case4 low high hlt => exact ⟨Nat.le_refl _, hlow⟩

/-- Within the interval searched, the elements before the answer are those that pass. -/
theorem lt_partitionPoint_iff {α : Type} {test : α → Bool} {xs : Array α} {low high : ℕ}
    (hhigh : high ≤ xs.size) (hfirst : ∀ {i j : ℕ} {a b : α}, i ≤ j → xs[i]? = some a →
      xs[j]? = some b → test b = true → test a = true) {i : ℕ} {a : α} (hlow : low ≤ i)
    (hi : i < high) (ha : xs[i]? = some a) :
    i < partitionPoint test xs low high ↔ test a = true := by
  fun_induction partitionPoint test xs low high with
  | case1 low high hlt middle x hx htest ih =>
    by_cases hmid : i ≤ middle
    · have hpass := hfirst hmid ha hx htest
      have hbound := partitionPoint_bounds test xs (show middle + 1 ≤ high by omega)
      exact ⟨fun _ => hpass, fun _ => by omega⟩
    · exact ih hhigh (by omega) hi
  | case2 low high hlt middle x hx htest ih =>
    by_cases hmid : i < middle
    · exact ih (by omega) hlow hmid
    · have hfail : ¬ test a = true := fun hpass => htest (hfirst (by omega) hx ha hpass)
      have hbound := partitionPoint_bounds test xs (show low ≤ middle by omega)
      exact ⟨fun _ => by omega, fun hpass => absurd hpass hfail⟩
  | case3 low high hlt middle hx =>
    have hsize := Array.getElem?_eq_none_iff.mp hx
    omega
  | case4 low high hlt => omega

variable {points : List ℤ}

/-- Halving counts the ascending coordinates that pass a test which larger ones fail first. -/
private theorem count_spec (hsorted : points.Pairwise (· ≤ ·)) (test : Quantity → Bool)
    (htest : ∀ {p q : ℤ}, p ≤ q → test (.whole q) = true → test (.whole p) = true) {i : ℕ} {p : ℤ}
    (hp : points[i]? = some p) :
    i < partitionPoint test (points.map Quantity.whole).toArray 0
      (points.map Quantity.whole).toArray.size ↔ test (.whole p) = true := by
  have hwhole : ∀ {i : ℕ} {c : Quantity}, (points.map Quantity.whole).toArray[i]? = some c →
      ∃ p, points[i]? = some p ∧ Quantity.whole p = c := by
    intro i c h
    simpa only [List.getElem?_toArray, List.getElem?_map, Option.map_eq_some_iff] using h
  have hi : (points.map Quantity.whole).toArray[i]? = some (.whole p) := by simp [hp]
  have hsize := (Array.getElem?_eq_some_iff.mp hi).1
  refine lt_partitionPoint_iff (Nat.le_refl _) ?_ (Nat.zero_le i) hsize hi
  intro i j a b hij ha hb hpass
  obtain ⟨p, hp, rfl⟩ := hwhole ha
  obtain ⟨q, hq, rfl⟩ := hwhole hb
  exact htest (le_of_sorted hsorted hij hp hq) hpass

theorem lt_countBelow_iff (hsorted : points.Pairwise (· ≤ ·)) (target : ℤ) {i : ℕ} {p : ℤ}
    (hp : points[i]? = some p) :
    i < countBelow (points.map Quantity.whole).toArray (.whole target) ↔ p < target := by
  rw [countBelow, count_spec hsorted (fun c => c.less (.whole target)) ?_ hp]
  · simp
  · intro p q hpq hq
    simp only [Quantity.less_whole, decide_eq_true_eq] at hq ⊢
    omega

theorem lt_countThrough_iff (hsorted : points.Pairwise (· ≤ ·)) (target : ℤ) {i : ℕ} {p : ℤ}
    (hp : points[i]? = some p) :
    i < countThrough (points.map Quantity.whole).toArray (.whole target) ↔ p ≤ target := by
  rw [countThrough, count_spec hsorted (fun c => !(Quantity.whole target).less c) ?_ hp]
  · simp
  · intro p q hpq hq
    simp only [Quantity.less_whole, Bool.not_eq_true', decide_eq_false_iff_not] at hq ⊢
    omega

theorem countBelow_le (coordinates : Array Quantity) (target : Quantity) :
    countBelow coordinates target ≤ coordinates.size :=
  (partitionPoint_bounds _ coordinates (Nat.zero_le _)).2

theorem countThrough_le (coordinates : Array Quantity) (target : Quantity) :
    countThrough coordinates target ≤ coordinates.size :=
  (partitionPoint_bounds _ coordinates (Nat.zero_le _)).2

end OrderedRelations.FrameExtent
