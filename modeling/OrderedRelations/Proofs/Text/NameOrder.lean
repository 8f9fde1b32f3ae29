import OrderedRelations.Proofs.Value.Order
import OrderedRelations.Proofs.Window.StableSort

/-!
# Names in order

Texts are ordered by code point, and no two different ones tie. So names that are sorted stand in
one order, however they stood before.
-/

namespace OrderedRelations.Text

theorem less_eq_false_iff {s t : String} :
    less s t = false ↔ t.toList.map Char.toNat ≤ s.toList.map Char.toNat := by
  rw [less, ← Bool.not_eq_true, lessByCodePoint_iff, not_lt]

theorem ranking_less : Ranking less :=
  ⟨fun h => less_eq_false_iff.mpr (lessByCodePoint_iff.mp h).le,
    fun hab hbc => less_eq_false_iff.mpr
      ((less_eq_false_iff.mp hbc).trans (less_eq_false_iff.mp hab))⟩

/-- Names of which neither stands before the other are equal. -/
theorem eq_of_not_less {s t : String} (hst : less s t = false) (hts : less t s = false) : s = t := by
  have hcodes := le_antisymm (less_eq_false_iff.mp hts) (less_eq_false_iff.mp hst)
  have hinj : Function.Injective Char.toNat := fun _ _ h => Char.toNat_inj.mp h
  exact String.toList_inj.mp (List.map_injective_iff.mpr hinj hcodes)

/-- Sorting forgets the order of names. -/
theorem mergeSort_eq_of_perm {names names' : List String} (h : names.Perm names') :
    names.mergeSort (fun a b => !less b a) = names'.mergeSort fun a b => !less b a := by
  have hperm : (names.mergeSort fun a b => !less b a).Perm
      (names'.mergeSort fun a b => !less b a) :=
    (List.mergeSort_perm _ _).trans (h.trans (List.mergeSort_perm _ _).symm)
  exact hperm.eq_of_pairwise (fun _ _ _ _ hba hab => eq_of_not_less hab hba)
    (ranking_less.sorted_mergeSort names) (ranking_less.sorted_mergeSort names')

end OrderedRelations.Text
