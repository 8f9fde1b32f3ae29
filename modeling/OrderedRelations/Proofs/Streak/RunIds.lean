import Mathlib.Data.List.Dedup
import OrderedRelations.Proofs.Streak.PartitionWindows
import OrderedRelations.Proofs.Streak.ScratchColumns
import OrderedRelations.Proofs.Window.PickedRows

/-!
# Ids of runs

A list falls into runs: one starts at its head, and one after each pair of neighbours that break.
The id of an element is the number of runs up to it. The rows of a partition that have a measured
value get these ids, whatever windows and scratch columns they are computed with.
-/

namespace OrderedRelations.Streak

section Lists

variable {α β : Type} {breaks : α → α → Bool}

/-- The pairs of neighbours in a list. -/
def neighbours (l : List α) : List (α × α) := l.zip l.tail

/-- The ids of the elements of a list: how many runs have started up to each of them. -/
def runIds (breaks : α → α → Bool) (l : List α) : List ℕ :=
  (List.range l.length).map fun k => 1 + ((neighbours l).take k).countP fun p => breaks p.1 p.2

/-- Where runs start. -/
def runStarts (breaks : α → α → Bool) : List α → List Bool
  | [] => []
  | a :: rest => true :: (neighbours (a :: rest)).map fun p => breaks p.1 p.2

@[simp] theorem length_neighbours (l : List α) : (neighbours l).length = l.length - 1 := by
  simp [neighbours]

@[simp] theorem length_runIds (l : List α) : (runIds breaks l).length = l.length := by simp [runIds]

@[simp] theorem length_runStarts (l : List α) : (runStarts breaks l).length = l.length := by
  cases l <;> simp [runStarts]

theorem neighbours_map (f : α → β) (l : List α) :
    neighbours (l.map f) = (neighbours l).map (Prod.map f f) := by
  rw [neighbours, ← List.map_tail, List.zip_map, neighbours]

theorem runStarts_map {breaks : β → β → Bool} (f : α → β) (l : List α) :
    runStarts breaks (l.map f) = runStarts (fun a b => breaks (f a) (f b)) l := by
  cases l with
  | nil => rfl
  | cons a rest =>
    have hpairs := neighbours_map f (a :: rest)
    rw [List.map_cons] at hpairs
    simp [runStarts, hpairs]

/-- Counting the starts numbers the runs. -/
theorem prefixCounts_runStarts (l : List α) : prefixCounts (runStarts breaks l) = runIds breaks l := by
  cases l with
  | nil => rfl
  | cons a rest =>
    rw [prefixCounts, runIds, length_runStarts]
    refine List.map_congr_left fun k _ => ?_
    rw [runStarts, List.take_succ_cons, List.count_cons_self, ← List.map_take, List.count_eq_countP,
      List.countP_map, Nat.add_comm]
    exact congrArg _ (List.countP_congr fun p _ => by simp)

theorem runStarts_succ {l : List α} {k : ℕ} (hk : k + 1 < l.length) :
    (runStarts breaks l)[k + 1]? = some (breaks l[k] l[k + 1]) := by
  cases l with
  | nil => simp at hk
  | cons a rest =>
    have hk : k < rest.length := by simpa using hk
    simp [runStarts, neighbours, hk]

/-- A test of what stands before each element finds where runs start. -/
theorem runStarts_of_previous {cell : α → β} {first : β} {previous : α → Option β} {l : List α}
    {start : α → β → Bool}
    (hprevious : l.map previous = ((first :: l.map cell).take l.length).map some)
    (hfirst : ∀ a ∈ l, start a first = true)
    (hnext : ∀ k (h : k + 1 < l.length), start l[k + 1] (cell l[k]) = breaks l[k] l[k + 1]) :
    l.map (fun a => (previous a).map (start a)) = (runStarts breaks l).map some := by
  refine List.ext_getElem (by simp) fun k hk hk' => ?_
  simp only [List.length_map] at hk
  have hbefore : previous l[k] = (first :: l.map cell)[k]? := by
    have hplace := congrArg (·[k]?) hprevious
    have hin : k < (first :: l.map cell).length := by simp [Nat.lt_succ_of_lt hk]
    simp only [List.getElem?_map, List.getElem?_take_of_lt hk, List.getElem?_eq_getElem hk,
      List.getElem?_eq_getElem hin, Option.map_some] at hplace
    rw [List.getElem?_eq_getElem hin]
    exact Option.some.inj hplace
  cases k with
  | zero =>
    cases l with
    | nil => simp at hk
    | cons a rest =>
      have hcell : previous a = some first := by simpa using hbefore
      simp [runStarts, hcell, hfirst a (by simp)]
  | succ k =>
    have hcell : previous l[k + 1] = some (cell l[k]) := by
      simpa [hk, Nat.lt_of_succ_lt hk] using hbefore
    simp only [List.getElem_map, hcell, Option.map_some, hnext k hk]
    rw [← runStarts_succ hk]
    exact List.getElem?_eq_getElem _

/-- How many runs a list that is not empty has. -/
def runCount (breaks : α → α → Bool) (l : List α) : ℕ :=
  1 + (neighbours l).countP fun p => breaks p.1 p.2

theorem neighbours_reverse (l : List α) :
    neighbours l.reverse = ((neighbours l).map Prod.swap).reverse := by
  refine List.ext_getElem (by simp) fun k hk hk' => ?_
  simp only [length_neighbours, List.length_reverse] at hk
  have hfirst : l.length - 1 - k = l.length - 1 - 1 - k + 1 := by omega
  simp [neighbours, hfirst]

/-- Walking a list backwards numbers its runs from the other end. -/
theorem runIds_reverse (l : List α) : runIds (fun a b => breaks b a) l.reverse =
    ((runIds breaks l).map fun n => runCount breaks l + 1 - n).reverse := by
  refine List.ext_getElem (by simp) fun k hk hk' => ?_
  simp only [length_runIds, List.length_reverse] at hk
  -- the neighbours met from the far end, and those not met yet, are all neighbours
  have hsplit := congrArg (List.countP fun p => breaks p.1 p.2)
    (List.take_append_drop (l.length - 1 - k) (neighbours l))
  have hmet : (neighbours l.reverse).take k =
      (((neighbours l).drop (l.length - 1 - k)).map Prod.swap).reverse := by
    rw [neighbours_reverse, List.take_reverse, List.map_drop]
    simp
  rw [List.countP_append] at hsplit
  simp only [runIds, List.getElem_map, List.getElem_range, hmet, List.countP_reverse,
    List.countP_map, List.getElem_reverse, List.length_map, List.length_range, runCount]
  simp only [Function.comp_def, Prod.fst_swap, Prod.snd_swap]
  omega

/-- The ids are the numbers up to the number of runs. -/
theorem mem_runIds {l : List α} (hne : l ≠ []) {n : ℕ} :
    n ∈ runIds breaks l ↔ 1 ≤ n ∧ n ≤ runCount breaks l := by
  -- counting along a list goes up by at most one at a time
  have hreach : ∀ (pairs : List (α × α)) (m : ℕ), m ≤ pairs.countP (fun p => breaks p.1 p.2) →
      ∃ k ≤ pairs.length, (pairs.take k).countP (fun p => breaks p.1 p.2) = m := by
    intro pairs
    induction pairs with
    | nil => simp
    | cons p rest ih =>
      intro m hm
      cases m with
      | zero => exact ⟨0, by simp, by simp⟩
      | succ m =>
        by_cases hp : breaks p.1 p.2 = true
        · obtain ⟨k, hk, hcount⟩ := ih m (by simpa [hp] using hm)
          exact ⟨k + 1, by simpa using hk, by simp [hp, hcount]⟩
        · obtain ⟨k, hk, hcount⟩ := ih (m + 1) (by simpa [hp] using hm)
          exact ⟨k + 1, by simpa using hk, by simp [hp, hcount]⟩
  have hpos := List.length_pos_of_ne_nil hne
  simp only [runIds, runCount, List.mem_map, List.mem_range]
  constructor
  · rintro ⟨k, -, rfl⟩
    have hle := (List.take_sublist k (neighbours l)).countP_le (p := fun p => breaks p.1 p.2)
    omega
  · rintro ⟨hfirst, hlast⟩
    obtain ⟨k, hk, hcount⟩ := hreach (neighbours l) (n - 1) (by omega)
    rw [length_neighbours] at hk
    exact ⟨k, by omega, by omega⟩

theorem le_length_of_mem_runIds {l : List α} {n : ℕ} (h : n ∈ runIds breaks l) : n ≤ l.length := by
  have hne : l ≠ [] := by
    rintro rfl
    simp [runIds] at h
  have hcount := List.countP_le_length (p := fun p : α × α => breaks p.1 p.2) (l := neighbours l)
  have hpos := List.length_pos_of_ne_nil hne
  have hle := ((mem_runIds hne).mp h).2
  rw [length_neighbours] at hcount
  rw [runCount] at hle
  omega

theorem length_dedup_runIds {l : List α} (hne : l ≠ []) :
    (runIds breaks l).dedup.length = runCount breaks l := by
  have hperm : (runIds breaks l).dedup.Perm (List.range' 1 (runCount breaks l)) := by
    rw [List.perm_ext_iff_of_nodup (List.nodup_dedup _) List.nodup_range']
    intro n
    rw [List.mem_dedup, mem_runIds hne, List.mem_range'_1]
    omega
  rw [hperm.length_eq, List.length_range']

end Lists

section Windows

variable {r : Relation} {partitionBy : List String} {orderBy : List OrderKey}
  {parts : List Partition}

/-- Every row stands in a partition. -/
theorem exists_partition (hparts : Arrangement.positions r partitionBy orderBy = .ok parts) {i : ℕ}
    (hi : i < r.size) : ∃ p ∈ parts, i ∈ p.positions :=
  List.mem_flatMap.mp ((Arrangement.positions_perm hparts).mem_iff.mpr (List.mem_range.mpr hi))

/-- Where the partitions have whole numbers, so have the rows. -/
theorem exists_whole (hparts : Arrangement.positions r partitionBy orderBy = .ok parts)
    {values : List Value} (hlength : values.length = r.size) (answers : List ℕ → List ℤ)
    (h : ∀ p ∈ parts, p.positions.map (values[·]?) = ((answers p.positions).map Value.int).map some) :
    ∃ number : ℕ → ℤ, values = (List.range r.size).map (fun i => .int (number i)) ∧
      ∀ p ∈ parts, p.positions.map number = answers p.positions := by
  have hrow : ∀ i, i < r.size → ∃ n, values[i]? = some (Value.int n) := by
    intro i hi
    obtain ⟨p, hp, hip⟩ := exists_partition hparts hi
    have hmem : values[i]? ∈ p.positions.map (values[·]?) := List.mem_map.mpr ⟨i, hip, rfl⟩
    rw [h p hp, List.map_map] at hmem
    obtain ⟨n, -, hn⟩ := List.mem_map.mp hmem
    exact ⟨n, hn.symm⟩
  choose! number hnumber using hrow
  refine ⟨number, ?_, fun p hp => ?_⟩
  · refine List.ext_getElem? fun i => ?_
    by_cases hi : i < r.size
    · simp [hnumber i hi, hi]
    · simp [hi, hlength]
  · have hplaces := h p hp
    rw [List.map_map, List.map_congr_left fun i hi =>
      hnumber i (Arrangement.lt_size_of_positions hparts hp i hi)] at hplaces
    have hinj : Function.Injective fun n : ℤ => some (Value.int n) := fun a b hab => by
      simpa using hab
    exact List.map_injective_iff.mpr hinj (by simpa [Function.comp_def] using hplaces)

variable (hr : r.WellFormed) (hne : orderBy ≠ [])
  (hparts : Arrangement.positions r partitionBy orderBy = .ok parts)
include hr hne hparts

/-- Starts are counted along every partition. -/
theorem exists_countStarts {starts : List Bool} (hlength : starts.length = r.size) :
    ∃ ids, countStarts r partitionBy orderBy starts = .ok ids ∧ ids.length = r.size ∧
      ∀ p ∈ parts, p.positions.map (ids[·]?) = ((prefixCounts
        (p.positions.map fun i => starts[i]?.getD false)).map fun (n : ℕ) => Value.int n).map some := by
  obtain ⟨hp, ho, -, -⟩ := Arrangement.passed_of_positions hparts
  have htyped : ∀ v ∈ starts.map fun b => Value.int (FrameAggregate.ofMark b),
      v.conforms .integer = true := by
    intro v hv
    obtain ⟨b, -, rfl⟩ := List.mem_map.mp hv
    rfl
  obtain ⟨flagged, hflagged, happended⟩ := exists_scratch r "starts_new" (by simpa using hlength) htyped
  have hwell := happended.wellFormed hr htyped
  have hparts' : Arrangement.positions flagged partitionBy orderBy = .ok parts := by
    rw [Window.positions_wider hr happended.widens hp ho, hparts]
  have hmarks : ∀ i < flagged.size, flagged.cell (scratch r.schema "starts_new" .integer).name i =
      .int (FrameAggregate.ofMark (starts[i]?.getD false)) := by
    intro i hi
    rw [happended.widens.size_eq] at hi
    have hi' : i < starts.length := hlength ▸ hi
    simpa [hi'] using happended.cell hr hi
  obtain ⟨ids, hids, hsize, hruns⟩ :=
    Window.exists_runningCount hwell hne hparts' happended.typeOf hmarks
  refine ⟨ids, ?_, hsize.trans happended.widens.size_eq, hruns⟩
  unfold countStarts
  exact Result.bind_eq_ok.mpr ⟨flagged, hflagged, hids⟩

end Windows
end OrderedRelations.Streak
