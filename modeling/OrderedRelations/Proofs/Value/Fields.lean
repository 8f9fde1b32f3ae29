import Mathlib.Data.List.Nodup

/-!
# Entries under keys

Looking up a key finds an entry under it, and where the keys are different the only one. So the order
of entries with different keys does not matter.
-/

namespace OrderedRelations.Fields

variable {κ α : Type} [DecidableEq κ] {entries others : List (κ × α)} {key : κ} {a : α}

theorem lookup_of_mem (hdistinct : (entries.map Prod.fst).Nodup) (h : (key, a) ∈ entries) :
    entries.lookup key = some a := by
  induction entries with
  | nil => cases h
  | cons entry rest ih =>
    obtain ⟨hnew, hdistinct⟩ := List.nodup_cons.mp hdistinct
    rcases List.mem_cons.mp h with rfl | h
    · simp
    · have hne : key ≠ entry.1 := fun heq => hnew (heq ▸ List.mem_map_of_mem h)
      rw [List.lookup_cons, beq_eq_false_iff_ne.mpr hne]
      exact ih hdistinct h

theorem mem_of_lookup (h : entries.lookup key = some a) : (key, a) ∈ entries := by
  obtain ⟨before, after, hentries, -⟩ := List.lookup_eq_some_iff.mp h
  simp [hentries]

theorem lookup_eq_some (hdistinct : (entries.map Prod.fst).Nodup) :
    entries.lookup key = some a ↔ (key, a) ∈ entries :=
  ⟨mem_of_lookup, lookup_of_mem hdistinct⟩

theorem isSome_lookup : (entries.lookup key).isSome ↔ key ∈ entries.map Prod.fst := by
  constructor
  · intro h
    obtain ⟨a, ha⟩ := Option.isSome_iff_exists.mp h
    exact List.mem_map.mpr ⟨_, mem_of_lookup ha, rfl⟩
  · intro h
    obtain ⟨entry, hentry, rfl⟩ := List.mem_map.mp h
    refine Option.isSome_iff_ne_none.mpr fun hnone => ?_
    have hne := List.lookup_eq_none_iff.mp hnone entry hentry
    simp at hne

/-- The order of entries with different keys does not matter. -/
theorem lookup_perm (hdistinct : (entries.map Prod.fst).Nodup) (h : entries.Perm others) :
    others.lookup key = entries.lookup key := by
  have hothers : (others.map Prod.fst).Nodup := (h.map Prod.fst).nodup_iff.mp hdistinct
  ext a
  rw [lookup_eq_some hothers, lookup_eq_some hdistinct, h.mem_iff]

end OrderedRelations.Fields
