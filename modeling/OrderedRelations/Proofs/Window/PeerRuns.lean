import Mathlib.Data.Int.Notation
import OrderedRelations.Proofs.Result
import OrderedRelations.Proofs.Window.StableSort
import OrderedRelations.Window.Span

/-!
# Peers in sorted order

Where keys are sorted by a rank that equal keys share, the run of a key holds exactly the keys
of its rank.
-/

namespace OrderedRelations.Peers

private theorem eq_of_replicate_getElem? {α : Type} {length j : ℕ} {x y : α}
    (h : (List.replicate length x)[j]? = some y) : j < length ∧ y = x := by
  rw [List.getElem?_replicate] at h
  split at h
  · exact ⟨‹j < length›, (Option.some.inj h).symm⟩
  · cases h

variable {β : Type}

/-- A span, between two bounds, that covers among ranked positions those of one rank. -/
structure IsRun (ranks : List β) (start : ℕ) (x : β) (s : Span) : Prop where
  le_first : (start : ℤ) ≤ s.first
  stop_le : s.stop ≤ (start + ranks.length : ℕ)
  covers : ∀ {j : ℕ} {y : β}, ranks[j]? = some y →
    (s.first ≤ (start + j : ℕ) ∧ ((start + j : ℕ) : ℤ) < s.stop ↔ y = x)

private theorem isRun_replicate (start length : ℕ) (x : β) :
    IsRun (List.replicate length x) start x ⟨start, (start + length : ℕ)⟩ := by
  refine ⟨Int.le_refl _, by simp, ?_⟩
  intro j y hy
  obtain ⟨hj, rfl⟩ := eq_of_replicate_getElem? hy
  simp only [iff_true]
  omega

private theorem IsRun.append_left {start length : ℕ} {x z : β} {rest : List β} {s : Span}
    (hrun : IsRun rest (start + length) x s) (hne : z ≠ x) :
    IsRun (List.replicate length z ++ rest) start x s := by
  have hfirst := hrun.le_first
  have hstop := hrun.stop_le
  refine ⟨by omega, ?_, ?_⟩
  · simp only [List.length_append, List.length_replicate]
    omega
  · intro j y hy
    by_cases hj : j < length
    · rw [List.getElem?_append_left (by simpa using hj)] at hy
      obtain ⟨-, rfl⟩ := eq_of_replicate_getElem? hy
      simp only [hne, iff_false]
      omega
    · rw [List.getElem?_append_right (by simpa using hj), List.length_replicate] at hy
      have hcovers := hrun.covers hy
      rwa [show start + length + (j - length) = start + j by omega] at hcovers

variable [LinearOrder β]

private theorem IsRun.append_right {start length : ℕ} {x : β} {rest : List β}
    (hgreater : ∀ y ∈ rest, x < y) :
    IsRun (List.replicate length x ++ rest) start x ⟨start, (start + length : ℕ)⟩ := by
  have hrun := isRun_replicate start length x
  refine ⟨hrun.le_first, ?_, ?_⟩
  · simp only [List.length_append, List.length_replicate]
    omega
  intro j y hy
  by_cases hj : j < length
  · exact hrun.covers (by rwa [List.getElem?_append_left (by simpa using hj)] at hy)
  · rw [List.getElem?_append_right (by simpa using hj)] at hy
    have hne := (hgreater y (List.mem_of_getElem? hy)).ne'
    simp only [hne, iff_false]
    omega

section Sorted

variable {ranks : List β} {x y : β} {s : Span} {i j : ℕ}

theorem IsRun.first_le_iff (hsorted : ranks.Pairwise (· ≤ ·)) (hrun : IsRun ranks 0 x s)
    (hx : ranks[i]? = some x) (hy : ranks[j]? = some y) : s.first ≤ j ↔ x ≤ y := by
  have hi := (hrun.covers hx).mpr rfl
  have hj := hrun.covers hy
  simp only [Nat.zero_add] at hi hj
  constructor
  · intro hfirst
    by_cases hstop : (j : ℤ) < s.stop
    · exact (hj.mp ⟨hfirst, hstop⟩).ge
    · exact le_of_sorted hsorted (by omega) hx hy
  · intro hxy
    by_contra hfirst
    have heq := hxy.antisymm (le_of_sorted hsorted (by omega) hy hx)
    exact hfirst (hj.mpr heq.symm).1

theorem IsRun.lt_stop_iff (hsorted : ranks.Pairwise (· ≤ ·)) (hrun : IsRun ranks 0 x s)
    (hx : ranks[i]? = some x) (hy : ranks[j]? = some y) : (j : ℤ) < s.stop ↔ y ≤ x := by
  have hi := (hrun.covers hx).mpr rfl
  have hj := hrun.covers hy
  simp only [Nat.zero_add] at hi hj
  constructor
  · intro hstop
    by_cases hfirst : s.first ≤ j
    · exact (hj.mp ⟨hfirst, hstop⟩).le
    · exact le_of_sorted hsorted (by omega) hy hx
  · intro hyx
    by_contra hstop
    have heq := hyx.antisymm (le_of_sorted hsorted (by omega) hx hy)
    exact hstop (hj.mpr heq).2

end Sorted

variable {α : Type} {keyOf : α → List Value} {rank : α → β}

private theorem isRun_spansOfRuns {xs : List α} {x : α} {start length : ℕ}
    (hsame : ∀ a ∈ x :: xs, ∀ b ∈ x :: xs,
      Value.sameKeys (keyOf a) (keyOf b) = true ↔ rank a = rank b)
    (hsorted : (x :: xs).Pairwise fun a b => rank a ≤ rank b) (i : ℕ) (y : β)
    (hy : (List.replicate length (rank x) ++ xs.map rank)[i]? = some y) :
    ∃ s, (spansOfRuns start (runLengthsFrom (keyOf x) length (xs.map keyOf)))[i]? = some s ∧
      IsRun (List.replicate length (rank x) ++ xs.map rank) start y s := by
  induction xs generalizing x start length i with
  | nil =>
    simp only [List.map_nil, List.append_nil] at hy ⊢
    obtain ⟨hi, rfl⟩ := eq_of_replicate_getElem? hy
    refine ⟨⟨start, (start + length : ℕ)⟩, ?_, isRun_replicate start length (rank x)⟩
    simp [runLengthsFrom, spansOfRuns, hi]
  | cons next xs ih =>
    have hhead := (List.pairwise_cons.mp hsorted).1
    have htail := (List.pairwise_cons.mp hsorted).2
    rw [List.map_cons, runLengthsFrom]
    split
    · rename_i hkey
      have hrank : rank next = rank x := (hsame next (by simp) x (by simp)).mp hkey
      have hlist : List.replicate length (rank x) ++ (next :: xs).map rank =
          List.replicate (length + 1) (rank x) ++ xs.map rank := by
        simp [hrank, List.replicate_succ']
      rw [hlist] at hy ⊢
      have hsub : (x :: xs).Sublist (x :: next :: xs) :=
        (List.sublist_cons_self next xs).cons_cons x
      exact ih (fun a ha b hb => hsame a (hsub.subset ha) b (hsub.subset hb))
        (hsorted.sublist hsub) i hy
    · rename_i hkey
      have hne : rank next ≠ rank x := fun h => hkey ((hsame next (by simp) x (by simp)).mpr h)
      have hgreater : ∀ y ∈ (next :: xs).map rank, rank x < y := by
        intro y hy
        have hfirst := (hhead next (by simp)).lt_of_ne hne.symm
        obtain ⟨a, ha, rfl⟩ := List.mem_map.mp hy
        rcases List.mem_cons.mp ha with rfl | ha
        · exact hfirst
        · exact hfirst.trans_le ((List.pairwise_cons.mp htail).1 a ha)
      rw [spansOfRuns]
      by_cases hi : i < length
      · rw [List.getElem?_append_left (by simpa using hi)] at hy
        obtain ⟨-, rfl⟩ := eq_of_replicate_getElem? hy
        refine ⟨⟨start, (start + length : ℕ)⟩, ?_, IsRun.append_right hgreater⟩
        rw [List.getElem?_append_left (by simpa using hi)]
        simp [hi]
      · rw [List.getElem?_append_right (by simpa using hi), List.length_replicate] at hy
        -- the next run begins with one key
        have hone : (next :: xs).map rank = List.replicate 1 (rank next) ++ xs.map rank := rfl
        have hsub : (next :: xs).Sublist (x :: next :: xs) := List.sublist_cons_self _ _
        rw [hone] at hy hgreater ⊢
        obtain ⟨s, hs, hrun⟩ : ∃ s, (spansOfRuns (start + length)
            (runLengthsFrom (keyOf next) 1 (xs.map keyOf)))[i - length]? = some s ∧
              IsRun (List.replicate 1 (rank next) ++ xs.map rank) (start + length) y s :=
          ih (fun a ha b hb => hsame a (hsub.subset ha) b (hsub.subset hb)) htail (i - length) hy
        refine ⟨s, ?_, hrun.append_left (hgreater y (List.mem_of_getElem? hy)).ne⟩
        rw [List.getElem?_append_right (by simpa using hi), List.length_replicate]
        exact hs

/-- The peers of a position are the positions of its rank. -/
theorem isRun_spans {xs : List α} (hsame : ∀ a ∈ xs, ∀ b ∈ xs,
      Value.sameKeys (keyOf a) (keyOf b) = true ↔ rank a = rank b)
    (hsorted : xs.Pairwise fun a b => rank a ≤ rank b) {i : ℕ} {y : β}
    (hy : (xs.map rank)[i]? = some y) :
    ∃ s, (spans (xs.map keyOf))[i]? = some s ∧ IsRun (xs.map rank) 0 y s := by
  cases xs with
  | nil => simp at hy
  | cons x xs => exact isRun_spansOfRuns hsame hsorted i y hy

private theorem length_spansOfRuns (keys : List (List Value)) (key : List Value)
    (start length : ℕ) :
    (spansOfRuns start (runLengthsFrom key length keys)).length = length + keys.length := by
  induction keys generalizing key start length with
  | nil => simp [runLengthsFrom, spansOfRuns]
  | cons next keys ih =>
    rw [runLengthsFrom]
    split
    · rw [ih, List.length_cons]
      omega
    · rw [spansOfRuns, List.length_append, ih, List.length_replicate, List.length_cons]
      omega

theorem length_spans (keys : List (List Value)) : (spans keys).length = keys.length := by
  cases keys with
  | nil => rfl
  | cons key keys =>
    rw [spans, runLengths, length_spansOfRuns, List.length_cons, Nat.add_comm]

/-- Keys whose values have comparable forms have the peers of these forms. -/
theorem bounds_eq_spans {keys : List (List Value)}
    (hc : ∀ key ∈ keys, ∀ v ∈ key, v.comparable?.isSome = true) :
    bounds keys =
      .ok (spans (keys.map fun key => key.map fun v => v.comparable?.getD .null)) := by
  have hforms : comparableKeys keys =
      .ok (keys.map fun key => key.map fun v => v.comparable?.getD .null) := by
    refine Result.mapM_eq_map fun key hkey => Result.mapM_eq_map fun v hv => ?_
    obtain ⟨w, hw⟩ := Option.isSome_iff_exists.mp (hc key hkey v hv)
    rw [hw, Result.orElse_some, Option.getD_some]
  rw [bounds, hforms, Result.map_ok]

/-- A value without a comparable form leaves keys without peers. -/
theorem bounds_eq_overflow {keys : List (List Value)}
    (hnone : ∃ key ∈ keys, ∃ v ∈ key, v.comparable? = none) : bounds keys = .error .overflow := by
  obtain ⟨key, hkey, v, hv, hnone⟩ := hnone
  have hvalue : ∀ (w : Value) (e : Failure),
      orElse .overflow w.comparable? = .error e → e = .overflow :=
    fun w e h => (Result.orElse_eq_error.mp h).2.symm
  have hfails : key.mapM (fun v => orElse Failure.overflow v.comparable?) = .error .overflow :=
    Result.mapM_eq_error (fun w _ => hvalue w) ⟨v, hv, by rw [hnone, Result.orElse_none]⟩
  have honly : ∀ other ∈ keys, ∀ e, other.mapM (fun v => orElse Failure.overflow v.comparable?) =
      .error e → e = .overflow := by
    intro other _ e h
    obtain ⟨w, -, hw⟩ := Result.exists_error_of_mapM h
    exact hvalue w e hw
  rw [bounds, comparableKeys, Result.mapM_eq_error honly ⟨key, hkey, hfails⟩, Result.map_error]

end OrderedRelations.Peers
