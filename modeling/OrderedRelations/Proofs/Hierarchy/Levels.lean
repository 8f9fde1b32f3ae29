import Mathlib.Data.List.Range
import OrderedRelations.Hierarchy.Resolution
import OrderedRelations.Proofs.Result

/-!
# Runs of a growing hierarchy

Growing walks along the sequence of levels that expansion gives: the levels up to the first
empty one are listed in order, and what is pending is the level that the fuel reaches.
-/

namespace OrderedRelations.Hierarchy

variable {next : List Lineage → Result (List Lineage)} {L : ℕ → List Lineage}

/-- Each level is what expansion makes of the level before, and nothing grows from nothing. -/
structure IsRun (next : List Lineage → Result (List Lineage)) (L : ℕ → List Lineage) : Prop where
  empty : next [] = .ok []
  step : ∀ k, next (L k) = .ok (L (k + 1))

theorem IsRun.succ_eq_nil (h : IsRun next L) {k : ℕ} (hk : L k = []) : L (k + 1) = [] := by
  have hnext := h.step k
  rw [hk, h.empty] at hnext
  exact (Except.ok.inj hnext).symm

theorem IsRun.eq_nil_of_le (h : IsRun next L) {k n : ℕ} (hk : L k = []) (hkn : k ≤ n) :
    L n = [] := by
  induction n, hkn using Nat.le_induction with
  | base => exact hk
  | succ n _ ih => exact h.succ_eq_nil ih

/-- A run from level `k` lists levels that are not empty, and stops early only before an empty
one. -/
theorem IsRun.grow_eq (h : IsRun next L) (fuel k : ℕ) :
    ∃ m, grow next fuel (L k) = .ok ((List.range' k m).map L, L (k + fuel)) ∧
      (∀ i, k ≤ i → i < k + m → L i ≠ []) ∧ (m ≤ fuel → L (k + m) = []) := by
  induction fuel generalizing k with
  | zero =>
    cases hk : L k with
    | nil => exact ⟨0, by simp [grow], by omega, fun _ => hk⟩
    | cons l ls =>
      refine ⟨1, by simp [grow, hk], ?_, by omega⟩
      intro i hki hi
      obtain rfl : i = k := by omega
      simp [hk]
  | succ fuel ih =>
    cases hk : L k with
    | nil =>
      have hlast := h.eq_nil_of_le hk (Nat.le_add_right k (fuel + 1))
      exact ⟨0, by simp [grow, hlast], by omega, fun _ => hk⟩
    | cons l ls =>
      obtain ⟨m, hgrow, hfull, hstop⟩ := ih (k + 1)
      have hnext := h.step k
      rw [hk] at hnext
      refine ⟨m + 1, ?_, ?_, ?_⟩
      · rw [grow, hnext, Result.ok_bind, hgrow, Result.ok_bind, List.range'_succ, List.map_cons,
          hk, Nat.add_right_comm k 1 fuel]
        · rfl
        · simp
      · intro i hki hi
        rcases Nat.eq_or_lt_of_le hki with rfl | hlt
        · simp [hk]
        · exact hfull i hlt (by omega)
      · intro hm
        have hend := hstop (by omega)
        rwa [Nat.add_right_comm] at hend

/-- A run whose rounds reach an empty level lists exactly the levels before the first empty one,
whether it is the cap or the fuel that bounds the rounds. -/
theorem IsRun.levels_ended (h : IsRun next L) {cap fuel : ℕ}
    (hend : L (if cap = 0 then fuel else cap) = []) :
    ∃ m, levels next cap fuel (L 0) = .ok ((List.range m).map L) ∧
      (∀ i < m, L i ≠ []) ∧ ∀ i, m ≤ i → L i = [] := by
  obtain ⟨m, hgrow, hfull, hstop⟩ := h.grow_eq (if cap = 0 then fuel else cap) 0
  rw [Nat.zero_add] at hgrow
  have hm : m ≤ if cap = 0 then fuel else cap := by
    by_contra hlt
    exact hfull _ (Nat.zero_le _) (by omega) hend
  refine ⟨m, ?_, fun i hi => hfull i (Nat.zero_le _) (by omega), ?_⟩
  · simp [levels, hgrow, hend, List.range_eq_range']
  · intro i hi
    have hstop := hstop hm
    rw [Nat.zero_add] at hstop
    exact h.eq_nil_of_le hstop hi

/-- An open run whose fuel reaches an empty level lists exactly the levels before the first
empty one. -/
theorem IsRun.levels_open (h : IsRun next L) {fuel : ℕ} (hend : L fuel = []) :
    ∃ m, levels next 0 fuel (L 0) = .ok ((List.range m).map L) ∧
      (∀ i < m, L i ≠ []) ∧ ∀ i, m ≤ i → L i = [] :=
  h.levels_ended (by rwa [if_pos rfl])

private theorem zipIdx_levels (f : ℕ → List Lineage) (m : ℕ) :
    ((List.range m).map f).zipIdx = (List.range m).map fun d => (f d, d) := by
  apply List.ext_getElem
  · simp
  · intro i _ _
    simp

/-- Where the chains of level `d` have `d + 1` keys, the depth of an entry is read off its
chain. -/
theorem depths_eq_map {f : ℕ → List Lineage} (m : ℕ) (h : ∀ d, ∀ l ∈ f d, l.chain.length = d + 1) :
    depths ((List.range m).map f) =
      ((List.range m).map f).flatten.map fun l => .int (l.chain.length - 1 : ℕ) := by
  rw [depths, zipIdx_levels, List.flatMap_def, List.map_map, List.map_flatten, List.map_map]
  refine congrArg List.flatten (List.map_congr_left fun d _ => ?_)
  refine List.map_congr_left fun l hl => ?_
  simp [h d l hl]

/-- A resolution from the answers of its parts. -/
theorem resolve_eq_ok {fuel defaultDepth : ℕ} {base seed r : Relation} {spec : HierarchySpec}
    {places : List ℕ} {found : List (List Lineage)}
    (hanchor : spec.anchor base = .ok (.relation seed))
    (hcheck : checkAnchor spec (.relation seed) = .ok seed)
    (hplaces : spec.cycleKey.mapM seed.schema.indexOf = .ok places)
    (hlevels : levels (nextLevel spec base seed.schema places)
      (if spec.maxDepth = 0 then defaultDepth else spec.maxDepth) fuel
      (seed.rows.map fun row => ⟨row, [keyOf places row]⟩) = .ok found)
    (hcolumns : (withOptional ⟨seed.schema, found.flatten.map Lineage.row⟩ spec.depthColumn .integer
      (depths found) >>= fun r => withOptional r spec.pathColumn .text (paths found)) = .ok r) :
    resolve fuel base spec defaultDepth = .ok ⟨r, found.map List.length⟩ := by
  obtain ⟨deeper, hdeeper, hlonger⟩ := Result.bind_eq_ok.mp hcolumns
  simp only [resolve, hanchor, hcheck, hplaces, hlevels, hdeeper, hlonger, Result.ok_bind,
    Result.pure_eq_ok]

end OrderedRelations.Hierarchy
