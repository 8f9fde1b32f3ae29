import Mathlib
import OrderedRelations.Proofs.Window.SortedGroups

/-!
# How an arrangement splits the rows

Every row stands in one partition and there once, beside the rows whose partition columns agree
with its own. Partitions are listed by the first row of their key, whatever the order keys are.
-/

namespace OrderedRelations

namespace Value

end Value

namespace Relation

variable {r : Relation} {partitionBy : List String} {i j : ℕ}

end Relation

namespace Arrangement

variable {r : Relation} {partitionBy : List String} {orderBy : List OrderKey}
  {parts : List Partition} {p : Partition}

/-- Partitions met so far, each spelled by its first row and listed by it. -/
structure Met (keyAt : ℕ → List Value) (next : ℕ) (ps : List Partition) : Prop where
  spelled : ∀ p ∈ ps, ∃ i < next, p.positions.head? = some i ∧ p.key = keyAt i
  listed : ps.Pairwise fun p q => ∀ i ∈ p.positions.head?, ∀ j ∈ q.positions, i < j

theorem Met.insert {keyAt : ℕ → List Value} {next : ℕ} {ps : List Partition}
    (h : Met keyAt next ps) : Met keyAt (next + 1) (insert (keyAt next) next ps) := by
  induction ps with
  | nil => exact ⟨by simp [Arrangement.insert], List.pairwise_singleton _ _⟩
  | cons p rest ih =>
    obtain ⟨hspelled, hlisted⟩ := h
    obtain ⟨⟨i, hi, hhead, hkey⟩, hrest⟩ := List.forall_mem_cons.mp hspelled
    obtain ⟨hbefore, htail⟩ := List.pairwise_cons.mp hlisted
    have hlater : ∀ q ∈ rest, ∃ j < next + 1, q.positions.head? = some j ∧ q.key = keyAt j := by
      intro q hq
      obtain ⟨j, hj, hfirst⟩ := hrest q hq
      exact ⟨j, Nat.lt_succ_of_lt hj, hfirst⟩
    rw [Arrangement.insert]
    split
    · have hhead' : (p.positions ++ [next]).head? = some i := by simp [hhead]
      refine ⟨List.forall_mem_cons.mpr ⟨⟨i, by omega, hhead', hkey⟩, hlater⟩, ?_⟩
      refine List.pairwise_cons.mpr ⟨fun q hq k hk => ?_, htail⟩
      rw [hhead'] at hk
      exact hbefore q hq k (hhead ▸ hk)
    · obtain ⟨hspelled', hlisted'⟩ := ih ⟨hrest, htail⟩
      refine ⟨List.forall_mem_cons.mpr ⟨⟨i, by omega, hhead, hkey⟩, hspelled'⟩, ?_⟩
      refine List.pairwise_cons.mpr ⟨fun q hq k hk => ?_, hlisted'⟩
      obtain rfl : i = k := Option.some.inj (hhead.symm.trans hk)
      rcases mem_insert hq with hq | hq | ⟨q', hq', hq⟩
      · simpa [hq] using hi
      · exact hbefore q hq i hhead
      · simpa [hq, or_imp, forall_and] using ⟨hbefore q' hq' i hhead, hi⟩

theorem Met.partitionFrom {keyAt : ℕ → List Value} {n next : ℕ} {ps : List Partition}
    (h : Met keyAt next ps) :
    Met keyAt (next + n) (partitionFrom ps next ((List.range' next n).map keyAt)) := by
  induction n generalizing next ps with
  | zero => exact h
  | succ n ih =>
    rw [List.range'_succ, List.map_cons, Arrangement.partitionFrom, ← Nat.succ_add_eq_add_succ]
    exact ih h.insert

/-- An hour of one day, at an offset from UTC if there is one. -/
def hourAt (hour : ℕ) (offset : Option ℤ) (h : hour * 3600000000 < dayMicroseconds) : Value :=
  .datetime ⟨⟨2023, 6, 21, by decide⟩, hour * 3600000000, h, offset⟩

/-- Numbered readings, two of them lost; zeros have both signs, and ten at UTC is eleven east of
it. -/
def readings : Relation :=
  ⟨⟨[⟨"level", .float, by decide⟩, ⟨"read", .datetime, by decide⟩, ⟨"number", .integer, by decide⟩],
      by decide⟩,
    [[.float (.number 0), hourAt 10 (some 0) (by decide), .int 1], [.null, .null, .int 2],
      [.float .negativeZero, hourAt 11 (some 3600000000) (by decide), .int 3],
      [.float (.number 0), hourAt 10 none (by decide), .int 4], [.null, .null, .int 5]]⟩

def highestFirst : List OrderKey := [⟨"number", .desc, .last⟩]

end Arrangement
end OrderedRelations
