import Mathlib.Data.List.Perm.Subperm
import OrderedRelations.Proofs.Relation.Widening
import OrderedRelations.Streak.Grouping

/-!
# Scratch columns

Streaks keep intermediate values in a column under a name that no other column has. Among one
candidate more than there are columns one is free, so the search never runs out.
-/

namespace OrderedRelations.Streak

theorem candidate_injective (stem : String) : Function.Injective (candidate stem) := by
  have hlonger : ∀ n : ℕ, "__" ++ stem ++ "_" ++ toString (n + 1) ≠ "__" ++ stem := by
    intro n heq
    have hlength := congrArg String.length heq
    simp only [String.length_append] at hlength
    have hbar : "_".length = 1 := rfl
    omega
  intro m n h
  cases m with
  | zero =>
    cases n with
    | zero => rfl
    | succ n => exact absurd h.symm (hlonger n)
  | succ m =>
    cases n with
    | zero => exact absurd h (hlonger m)
    | succ n =>
      have hlists := congrArg String.toList h
      simp only [candidate, String.toList_append, List.append_cancel_left_eq] at hlists
      have hdigits : Nat.toDigits 10 (m + 1) = Nat.toDigits 10 (n + 1) := by
        simpa [Nat.toString_eq_ofList_toDigits] using hlists
      calc
        m + 1 = Nat.ofDigitChars 10 (Nat.toDigits 10 (m + 1)) 0 :=
          Nat.ofDigitChars_ten_toDigits.symm
        _ = Nat.ofDigitChars 10 (Nat.toDigits 10 (n + 1)) 0 := by rw [hdigits]
        _ = n + 1 := Nat.ofDigitChars_ten_toDigits

theorem candidate_ne (stem : String) (n : ℕ) : candidate stem n ≠ "" := by
  intro h
  have hlength := congrArg String.length h
  cases n <;> simp [candidate] at hlength

variable {schema : Schema} {stem : String}

/-- The search as it goes on with no limit: from the `n`-th candidate on it skips so many taken names
and ends at a free one. -/
inductive Searches (schema : Schema) (stem : String) : (n skipped : ℕ) → String → Prop
  | free {n : ℕ} (hfree : candidate stem n ∉ schema.names) :
    Searches schema stem n 0 (candidate stem n)
  | taken {n skipped : ℕ} {name : String} (htaken : candidate stem n ∈ schema.names)
    (hrest : Searches schema stem (n + 1) skipped name) : Searches schema stem n (skipped + 1) name

theorem Searches.notMem {n skipped : ℕ} {name : String} (h : Searches schema stem n skipped name) :
    name ∉ schema.names := by
  induction h with
  | free hfree => exact hfree
  | taken _ _ ih => exact ih

theorem Searches.eq_candidate {n skipped : ℕ} {name : String}
    (h : Searches schema stem n skipped name) : name = candidate stem (n + skipped) := by
  induction h with
  | free _ => rfl
  | taken _ _ ih => rw [ih, Nat.add_right_comm, Nat.add_assoc]

/-- A search has one course only. -/
theorem Searches.unique {n skipped skipped' : ℕ} {name name' : String}
    (h : Searches schema stem n skipped name) (h' : Searches schema stem n skipped' name') :
    skipped = skipped' ∧ name = name' := by
  induction h generalizing skipped' with
  | free hfree =>
    cases h' with
    | free _ => exact ⟨rfl, rfl⟩
    | taken htaken _ => exact absurd htaken hfree
  | taken htaken _ ih =>
    cases h' with
    | free hfree => exact absurd htaken hfree
    | taken _ hrest =>
      obtain ⟨rfl, rfl⟩ := ih hrest
      exact ⟨rfl, rfl⟩

/-- With enough fuel for a free candidate, a search takes the course that it takes without limit. -/
theorem exists_searches {fuel n m : ℕ} (hle : n ≤ m) (hreach : m ≤ n + fuel)
    (hfree : candidate stem m ∉ schema.names) :
    ∃ skipped ≤ m - n, Searches schema stem n skipped (search schema stem fuel n) := by
  induction fuel generalizing n with
  | zero =>
    obtain rfl : n = m := by omega
    exact ⟨0, Nat.zero_le _, .free hfree⟩
  | succ fuel ih =>
    rw [search]
    split
    · rename_i htaken
      have hmem := Schema.contains_iff.mp htaken
      rcases Nat.eq_or_lt_of_le hle with rfl | hlt
      · exact absurd hmem hfree
      · obtain ⟨skipped, hskipped, hsearch⟩ := ih hlt (by omega)
        exact ⟨skipped + 1, by omega, .taken hmem hsearch⟩
    · rename_i hnew
      exact ⟨0, Nat.zero_le _, .free fun hmem => hnew (Schema.contains_iff.mpr hmem)⟩

theorem exists_free_candidate (schema : Schema) (stem : String) :
    ∃ m ≤ schema.width, candidate stem m ∉ schema.names := by
  by_contra hall
  have htaken : (List.range (schema.width + 1)).map (candidate stem) ⊆ schema.names := by
    intro name hname
    obtain ⟨m, hm, rfl⟩ := List.mem_map.mp hname
    by_contra hfree
    exact hall ⟨m, Nat.lt_succ_iff.mp (List.mem_range.mp hm), hfree⟩
  have hdistinct : ((List.range (schema.width + 1)).map (candidate stem)).Nodup :=
    List.nodup_range.map (candidate_injective stem)
  have hle := (List.subperm_of_subset hdistinct htaken).length_le
  simp only [Schema.names, Schema.width, List.length_map, List.length_range] at hle
  omega

/-- The search for a scratch name ends at a free candidate, behind no more taken ones than there are
columns. -/
theorem exists_scratchName (schema : Schema) (stem : String) :
    ∃ skipped ≤ schema.width, Searches schema stem 0 skipped (scratchName schema stem) := by
  obtain ⟨m, hm, hfree⟩ := exists_free_candidate schema stem
  have hreach : m ≤ 0 + schema.width := by omega
  obtain ⟨skipped, hskipped, hsearch⟩ := exists_searches (Nat.zero_le m) hreach hfree
  exact ⟨skipped, by omega, hsearch⟩

theorem scratchName_free (schema : Schema) (stem : String) :
    scratchName schema stem ∉ schema.names := by
  obtain ⟨skipped, -, hsearch⟩ := exists_scratchName schema stem
  exact hsearch.notMem

theorem scratchName_ne (schema : Schema) (stem : String) : scratchName schema stem ≠ "" := by
  obtain ⟨skipped, -, hsearch⟩ := exists_scratchName schema stem
  rw [hsearch.eq_candidate]
  exact candidate_ne stem (0 + skipped)

/-- The scratch column of a type. -/
def scratch (schema : Schema) (stem : String) (type : ColumnType) : Column :=
  ⟨scratchName schema stem, type, scratchName_ne schema stem⟩

/-- A scratch column takes one conforming value for each row. -/
theorem exists_scratch (r : Relation) (stem : String) {type : ColumnType} {values : List Value}
    (hlength : values.length = r.size) (hvalues : ∀ v ∈ values, v.conforms type = true) :
    ∃ s, r.withColumn (scratchName r.schema stem) type values = .ok s ∧
      Relation.Appended r (scratch r.schema stem type) values s := by
  obtain ⟨schema, heq, hcolumns⟩ := r.withColumn_eq_ok (scratchName_ne r.schema stem)
    (scratchName_free r.schema stem) hlength hvalues
  exact ⟨_, heq, hcolumns, rfl, hlength⟩

end OrderedRelations.Streak
