import OrderedRelations.Proofs.Relation.Extension
import OrderedRelations.Proofs.Value.Fields
import OrderedRelations.Proofs.Window.Overflow
import OrderedRelations.Proofs.Window.SortedGroups

/-!
# Safety of window functions

An accepted window function can fail in two ways only: something is out of range, or the fallback of
a shift does not enter the column. Otherwise each row gets one value, the one that its partition
has for it, and the column is appended.
-/

namespace OrderedRelations

open Result (Yields)

theorem WindowSpec.columnName_ne (spec : WindowSpec) : spec.columnName ≠ "" := by
  have hlabel : ∀ kind : FunctionKind, Labelled.label kind ≠ "" := by
    intro kind
    cases kind with
    | aggregate kind => cases kind <;> decide
    | _ => decide
  unfold columnName
  split
  · exact hlabel _
  · split
    · exact hlabel _
    · assumption

/-- The column that a specification computes. -/
def WindowSpec.column (spec : WindowSpec) (type : ColumnType) : Column :=
  ⟨spec.columnName, type, spec.columnName_ne⟩

namespace Window

section Scatter

/-- The values computed for a partition, placed at its positions. -/
def PlacedBy (evaluated : Partition → Result (List Value)) (function : WindowFunction)
    (type : ColumnType) (p : Partition) (placed : List (ℕ × Value)) : Prop :=
  ∃ results, evaluated p = .ok results ∧ Answers function type p.positions.length results ∧
    placed = p.positions.zip results

variable {evaluated : Partition → Result (List Value)} {function : WindowFunction}
  {type : ColumnType} {parts : List Partition} {placed : List (List (ℕ × Value))}

theorem keys_of_placed (h : List.Forall₂ (PlacedBy evaluated function type) parts placed) :
    placed.flatten.map Prod.fst = parts.flatMap Partition.positions := by
  induction h with
  | nil => rfl
  | cons hp _ ih =>
    obtain ⟨results, -, hresults, rfl⟩ := hp
    rw [List.flatten_cons, List.map_append, ih, List.flatMap_cons,
      List.map_fst_zip hresults.length.ge]

/-- Where the partitions hold every row once, each row gets the value of its partition. -/
theorem scatter_spec {n : ℕ} (hperm : (parts.flatMap Partition.positions).Perm (List.range n))
    (h : List.Forall₂ (PlacedBy evaluated function type) parts placed) :
    Answers function type n (scatter n placed.flatten) ∧
      ∀ p ∈ parts, ∃ results, evaluated p = .ok results ∧
        p.positions.map ((scatter n placed.flatten)[·]?) = results.map some := by
  have hkeys := keys_of_placed h
  have hn : (placed.flatten.map Prod.fst).Nodup := by
    rw [hkeys]
    exact hperm.nodup_iff.mpr List.nodup_range
  have hlookup : ∀ {i v}, (i, v) ∈ placed.flatten → (scatter n placed.flatten)[i]? = some v := by
    intro i v hv
    have hi : i ∈ parts.flatMap Partition.positions := hkeys ▸ List.mem_map.mpr ⟨_, hv, rfl⟩
    have hlt : i < n := List.mem_range.mp (hperm.mem_iff.mp hi)
    simp [scatter, hlt, Fields.lookup_of_mem hn hv]
  refine ⟨⟨by simp [scatter], ?_⟩, ?_⟩
  · intro v hv
    obtain ⟨i, hi, rfl⟩ := List.mem_map.mp hv
    have hkey : i ∈ placed.flatten.map Prod.fst := hkeys ▸ hperm.mem_iff.mpr hi
    obtain ⟨⟨_, w⟩, hw, rfl⟩ := List.mem_map.mp hkey
    rw [Fields.lookup_of_mem hn hw]
    obtain ⟨entries, hentries, hw⟩ := List.mem_flatten.mp hw
    obtain ⟨j, hj, rfl⟩ := List.getElem_of_mem hentries
    obtain ⟨results, -, hresults, hplaced⟩ := h.get (h.length_eq ▸ hj) hj
    rw [List.get_eq_getElem] at hplaced
    rw [hplaced] at hw
    exact hresults.typed w (List.of_mem_zip hw).2
  · intro p hp
    obtain ⟨j, hj, rfl⟩ := List.getElem_of_mem hp
    obtain ⟨results, hresults, hanswers, hplaced⟩ := h.get hj (h.length_eq ▸ hj)
    refine ⟨results, hresults, ?_⟩
    apply List.ext_getElem
    · simpa using hanswers.length.symm
    · intro m hm hm'
      simp only [List.length_map] at hm hm'
      simp only [List.getElem_map]
      have hlt : m < (parts[j].positions.zip results).length := by
        rw [List.length_zip]
        exact Nat.lt_min.mpr ⟨hm, hm'⟩
      have hzip : (parts[j].positions[m], results[m]) ∈ parts[j].positions.zip results := by
        rw [← List.getElem_zip (h := hlt)]
        exact List.getElem_mem _
      exact hlookup (List.mem_flatten.mpr ⟨_, List.getElem_mem _, hplaced ▸ hzip⟩)

end Scatter

variable {r : Relation} {spec : WindowSpec} {frame : Option FrameSpec} {type : ColumnType}

/-- Evaluation answers for every row with what its partition has for it, unless it overflows. -/
theorem evaluate_yields (hr : r.WellFormed) (hv : validate r.schema spec = .ok frame)
    (htype : spec.function.outputType r.schema = .ok type) :
    Yields (evaluate r spec) fun values =>
      Answers spec.function type r.size values ∧
      ∀ parts, Arrangement.positions r spec.partitionBy spec.orderBy = .ok parts →
        ∀ p ∈ parts, ∃ results, evaluateRows r.schema spec (frame.getD spec.defaultFrame)
            (Arrangement.rowsAt r p.positions) = .ok results ∧
          p.positions.map (values[·]?) = results.map some := by
  have hvalid := validate_eq_ok hv
  rw [evaluate, hv, Result.ok_bind]
  by_cases hc : r.Comparable spec.orderBy
  · have hparts := Arrangement.positions_eq_passed hvalid.partitionColumns hvalid.orderColumns hc
    have heach : ∀ p ∈ Arrangement.passed r spec.partitionBy spec.orderBy, Yields (do
        let values ← evaluateRows r.schema spec (frame.getD spec.defaultFrame)
          (Arrangement.rowsAt r p.positions)
        pure (p.positions.zip values))
        (PlacedBy (fun p => evaluateRows r.schema spec (frame.getD spec.defaultFrame)
          (Arrangement.rowsAt r p.positions)) spec.function type p) := by
      intro p hp
      have hin := Arrangement.lt_size_of_positions hparts hp
      have hcells : ∀ k ∈ spec.orderBy, ∀ i ∈ p.positions,
          (r.cell k.column i).comparable?.isSome = true := fun k hk i hi => hc k hk i (hin i hi)
      rcases evaluateRows_yields hr hvalid htype hin hcells with
        hover | ⟨results, hresults, hanswers⟩
      · exact .inl (by rw [hover]; rfl)
      · exact .inr ⟨_, by rw [hresults]; rfl, results, hresults, hanswers, rfl⟩
    rw [hparts, Result.ok_bind]
    refine (Yields.mapM heach).bind fun placed hplaced => .ok ?_
    obtain ⟨hanswers, hresults⟩ := scatter_spec (Arrangement.positions_perm hparts) hplaced
    refine ⟨hanswers, ?_⟩
    intro parts hparts'
    cases hparts'
    exact hresults
  · rw [Arrangement.positions_eq_error hvalid.partitionColumns hvalid.orderColumns hc]
    exact .overflow

/-- Evaluation fails as the check of its specification does, or overflows. -/
theorem evaluate_eq_error (hr : r.WellFormed) {e : Failure} (h : evaluate r spec = .error e) :
    validate r.schema spec = .error e ∨ e = .overflow := by
  cases hv : validate r.schema spec with
  | error e' =>
    rw [evaluate, hv, Result.error_bind] at h
    cases h
    exact .inl rfl
  | ok frame =>
    obtain ⟨type, htype⟩ := exists_outputType (validate_eq_ok hv)
    rcases evaluate_yields hr hv htype with hover | ⟨values, hvalues, -⟩
    · exact .inr (Except.error.inj (h.symm.trans hover))
    · rw [hvalues] at h
      cases h

/-- The scores of each team, added up from the best one on. -/
def teamTotals : WindowSpec :=
  ⟨.aggregate .sum "score", ["team"], Arrangement.bestFirst, none, none⟩

/-- The sum of all results. -/
def total : WindowSpec := ⟨.aggregate .sum "score", [], [], none, none⟩

end Window
end OrderedRelations
