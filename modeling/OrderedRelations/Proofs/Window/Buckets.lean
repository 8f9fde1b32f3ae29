import Mathlib.Data.List.Chain
import Mathlib.Data.List.Count
import OrderedRelations.Proofs.Result
import OrderedRelations.Window.Evaluation

/-!
# Buckets

Rows are dealt into buckets one after the other. Dealing ends because the buckets have room for just
as many rows as there are, the larger ones in front: a bucket gives way only while rows are left, and
then a later one has room. So every row gets the number of its bucket, and the sizes of the buckets
are those of the division of the rows by the buckets.
-/

namespace OrderedRelations.Window

variable {size extra : ℕ}

/-- A run of the dealing that comes to its end, and the numbers that it has dealt. -/
inductive Dealt (size extra : ℕ) : (rows bucket remaining : ℕ) → List ℕ → Prop
  | nothing (bucket remaining : ℕ) : Dealt size extra 0 bucket remaining []
  | next {rows bucket : ℕ} {numbers : List ℕ}
      (later : Dealt size extra (rows + 1) (bucket + 1) (room size extra (bucket + 1)) numbers) :
      Dealt size extra (rows + 1) bucket 0 numbers
  | take {rows bucket remaining : ℕ} {numbers : List ℕ}
      (later : Dealt size extra rows bucket remaining numbers) :
      Dealt size extra (rows + 1) bucket (remaining + 1) (bucket :: numbers)

variable {rows bucket remaining : ℕ} {numbers : List ℕ}

/-- Where the buckets have room for the rows, dealing comes to its end. -/
theorem dealt_deal (h : HasRoom size extra rows bucket remaining) :
    Dealt size extra rows bucket remaining (deal size extra rows bucket remaining h) := by
  fun_induction deal with
  | case1 bucket remaining => exact .nothing bucket remaining
  | case2 _ _ _ _ ih => exact .next ih
  | case3 _ _ _ _ _ ih => exact .take ih

theorem Dealt.unique {others : List ℕ} (h : Dealt size extra rows bucket remaining numbers)
    (h' : Dealt size extra rows bucket remaining others) : numbers = others := by
  induction h generalizing others with
  | nothing => cases h'; rfl
  | next _ ih =>
    cases h' with
    | next later => exact ih later
  | take _ ih =>
    cases h' with
    | take later => rw [ih later]

/-- The current bucket takes its rows. -/
theorem Dealt.current (h : Dealt size extra rows bucket 0 numbers) (remaining : ℕ) :
    Dealt size extra (rows + remaining) bucket remaining
      (List.replicate remaining bucket ++ numbers) := by
  induction remaining with
  | zero => exact h
  | succ remaining ih => exact .take ih

/-- The numbers of some buckets from one on, each as often as the bucket has room. -/
def filled (size extra first count : ℕ) : List ℕ :=
  (List.range' first count).flatMap fun m => List.replicate (room size extra m) m

theorem filled_succ (first count : ℕ) : filled size extra first (count + 1) =
    List.replicate (room size extra first) first ++ filled size extra (first + 1) count := by
  rw [filled, List.range'_succ, List.flatMap_cons]
  rfl

theorem filled_concat (first count : ℕ) : filled size extra first (count + 1) =
    filled size extra first count ++
      List.replicate (room size extra (first + count)) (first + count) := by
  rw [filled, List.range'_1_concat, List.flatMap_append, List.flatMap_singleton]
  rfl

/-- Rows that just fill the current bucket and some after it are dealt to the end. -/
theorem dealt_filled (bucket remaining count : ℕ) :
    Dealt size extra ((filled size extra (bucket + 1) count).length + remaining) bucket remaining
      (List.replicate remaining bucket ++ filled size extra (bucket + 1) count) := by
  refine Dealt.current ?_ remaining
  induction count generalizing bucket with
  | zero => exact .nothing bucket 0
  | succ count ih =>
    cases hrows : (filled size extra (bucket + 1) (count + 1)).length with
    | zero =>
      rw [List.eq_nil_of_length_eq_zero hrows]
      exact .nothing bucket 0
    | succ rows =>
      -- rows are left, so the next bucket opens
      refine .next ?_
      rw [← hrows, filled_succ, List.length_append, List.length_replicate, Nat.add_comm]
      exact (ih (bucket + 1)).current _

/-- The first buckets have room for their share, and one row more each as long as there are extra
rows. -/
theorem length_filled (count : ℕ) :
    (filled size extra 1 count).length = count * size + min count extra := by
  induction count with
  | zero => simp [filled]
  | succ count ih =>
    rw [filled_concat, List.length_append, List.length_replicate, ih, room, Nat.succ_mul]
    split <;> omega

theorem count_filled (first count m : ℕ) : (filled size extra first count).count m =
    if first ≤ m ∧ m < first + count then room size extra m else 0 := by
  induction count with
  | zero => simp [filled]
  | succ count ih =>
    rw [filled_concat, List.count_append, ih, List.count_replicate]
    by_cases hm : first + count = m
    · subst hm
      simp
    · simp only [beq_iff_eq, hm, if_false, Nat.add_zero]
      congr 1
      simp only [eq_iff_iff]
      omega

theorem mem_filled {first count m : ℕ} : m ∈ filled size extra first count ↔
    (first ≤ m ∧ m < first + count) ∧ 0 < room size extra m := by
  rw [← List.count_pos_iff, count_filled]
  split <;> simp_all

/-- A bucket has no less room than a later one. -/
theorem room_le {m n : ℕ} (h : m ≤ n) : room size extra n ≤ room size extra m := by
  simp only [room]
  split <;> split <;> omega

/-- As soon as there are rows, the first bucket has room. -/
theorem room_first_pos {n buckets : ℕ} (hn : 0 < n) : 0 < room (n / buckets) (n % buckets) 1 := by
  have hdivision := Nat.div_add_mod n buckets
  generalize n / buckets = size at hdivision ⊢
  generalize n % buckets = extra at hdivision ⊢
  rcases Nat.eq_zero_or_pos size with rfl | hsize
  · rw [Nat.mul_zero, Nat.zero_add] at hdivision
    rw [room, if_pos (by omega), Nat.zero_add]
    exact Nat.one_pos
  · exact Nat.lt_of_lt_of_le hsize (Nat.le_add_right _ _)

/-- The numbers go up one by one. -/
theorem filled_isChain (count : ℕ) :
    (filled size extra 1 count).IsChain fun m n => n = m ∨ n = m + 1 := by
  induction count with
  | zero => exact .nil
  | succ count ih =>
    rw [filled_concat]
    refine List.isChain_append.mpr ⟨ih, List.isChain_replicate_of_rel _ (.inl rfl), ?_⟩
    intro m hm n hn
    obtain ⟨hroom, rfl⟩ := List.mem_replicate.mp (List.mem_of_mem_head? hn)
    cases count with
    | zero => cases hm
    | succ count =>
      -- the bucket before has room as well, so its number is the last one
      have hbefore : 0 < room size extra (1 + count) :=
        Nat.lt_of_lt_of_le (Nat.pos_of_ne_zero hroom) (room_le (by omega))
      rw [filled_concat, List.getLast?_append, List.getLast?_replicate, if_neg hbefore.ne',
        Option.some_or, Option.mem_some_iff] at hm
      omega

/-- Dealing fills all buckets. -/
theorem bucketsOf_eq (n : ℕ) {buckets : ℕ} (h : 0 < buckets) :
    bucketsOf n buckets = filled (n / buckets) (n % buckets) 1 buckets := by
  obtain ⟨count, rfl⟩ := Nat.exists_eq_add_one_of_ne_zero h.ne'
  have hsplit := @filled_succ (n / (count + 1)) (n % (count + 1)) 1 count
  have hlength : (filled (n / (count + 1)) (n % (count + 1)) 1 (count + 1)).length = n := by
    rw [length_filled, Nat.min_eq_right (Nat.mod_lt n h).le, Nat.div_add_mod]
  have hfilled := @dealt_filled (n / (count + 1)) (n % (count + 1)) 1
    (room (n / (count + 1)) (n % (count + 1)) 1) count
  rw [hsplit, List.length_append, List.length_replicate, Nat.add_comm] at hlength
  rw [hlength, ← hsplit] at hfilled
  exact (dealt_deal (hasRoom_division n (count + 1))).unique hfilled

theorem length_bucketsOf (n : ℕ) {buckets : ℕ} (h : 0 < buckets) :
    (bucketsOf n buckets).length = n := by
  rw [bucketsOf_eq n h, length_filled, Nat.min_eq_right (Nat.mod_lt n h).le, Nat.div_add_mod]

/-- Fewer rows than buckets have a bucket each. -/
theorem filled_of_lt {n buckets : ℕ} (h : n < buckets) : filled 0 n 1 buckets = List.range' 1 n := by
  obtain ⟨more, rfl⟩ := Nat.exists_eq_add_of_le h.le
  have hused : ∀ m ∈ List.range' 1 n, List.replicate (room 0 n m) m = [m] := by
    intro m hm
    rw [List.mem_range'_1] at hm
    rw [room, if_pos (by omega)]
    rfl
  have hunused : ∀ m ∈ List.range' (1 + n) more, List.replicate (room 0 n m) m = [] := by
    intro m hm
    rw [List.mem_range'_1] at hm
    rw [room, if_neg (by omega)]
    rfl
  rw [filled, ← List.range'_append_1, List.flatMap_append, List.flatMap_congr hused,
    List.flatMap_congr hunused, List.flatMap_singleton', List.flatMap_eq_nil_iff.mpr fun _ _ => rfl,
    List.append_nil]

variable {schema : Schema} {partitionBy : List String} {orderBy : List OrderKey}
  {frame : Option FrameSpec} {name : Option String}

/-- Dealing the rows of a partition into buckets comes to its end, with one number for each row. The
numbers start at one and go up one by one. Each bucket takes the rows that the division of all rows by
the buckets gives it, and the first ones take one row more for each row that remains; so with at
least as many rows as buckets every bucket is used, with fewer rows each has a bucket of its own, and
of two used buckets the earlier one is as large as the later one or larger by one. -/
theorem evaluateRows_ntile {buckets : ℕ} (positive : 0 < buckets) (effective : FrameSpec)
    (rows : List (List Value)) :
    ∃ numbers : List ℕ,
      evaluateRows schema ⟨.ntile buckets positive, partitionBy, orderBy, frame, name⟩ effective rows =
        .ok (numbers.map fun n : ℕ => .int n) ∧
      Dealt (rows.length / buckets) (rows.length % buckets) rows.length 1
        (room (rows.length / buckets) (rows.length % buckets) 1) numbers ∧
      numbers.length = rows.length ∧
      (rows ≠ [] → numbers.head? = some 1) ∧
      numbers.IsChain (fun m n => n = m ∨ n = m + 1) ∧
      (∀ m, numbers.count m =
        if 1 ≤ m ∧ m ≤ rows.length % buckets then rows.length / buckets + 1
        else if 1 ≤ m ∧ m ≤ buckets then rows.length / buckets
        else 0) ∧
      (buckets ≤ rows.length → ∀ m, m ∈ numbers ↔ 1 ≤ m ∧ m ≤ buckets) ∧
      (rows.length < buckets → numbers = List.range' 1 rows.length) ∧
      ∀ m ∈ numbers, ∀ n ∈ numbers, m ≤ n →
        numbers.count n ≤ numbers.count m ∧ numbers.count m ≤ numbers.count n + 1 := by
  have hextra := Nat.mod_lt rows.length positive
  have hdealt := bucketsOf_eq rows.length positive
  refine ⟨filled (rows.length / buckets) (rows.length % buckets) 1 buckets, ?_, ?_, ?_, ?_,
    filled_isChain buckets, ?_, ?_, ?_, ?_⟩
  · rw [← hdealt]
    rfl
  · rw [← hdealt]
    exact dealt_deal _
  · rw [← hdealt, length_bucketsOf _ positive]
  · intro hrows
    have hroom := @room_first_pos rows.length buckets (List.length_pos_iff.mpr hrows)
    obtain ⟨count, rfl⟩ := Nat.exists_eq_add_one_of_ne_zero positive.ne'
    rw [filled_succ, List.head?_append, List.head?_replicate, if_neg hroom.ne', Option.some_or]
  · intro m
    rw [count_filled]
    simp only [room]
    split_ifs <;> omega
  · intro hle m
    have hsize : 0 < rows.length / buckets := Nat.div_pos hle positive
    rw [mem_filled, room]
    omega
  · intro hlt
    rw [Nat.div_eq_of_lt hlt, Nat.mod_eq_of_lt hlt, filled_of_lt hlt]
  · intro m hm n hn hle
    have hm := (mem_filled.mp hm).1
    have hn := (mem_filled.mp hn).1
    rw [count_filled, count_filled, if_pos hm, if_pos hn]
    refine ⟨room_le hle, ?_⟩
    simp only [room]
    split_ifs <;> omega

theorem seconds_named : "seconds" ≠ "" := by decide

/-- Three heats, the fastest swimmers in the first one. -/
def heats : WindowSpec :=
  ⟨.ntile 3 (by decide), [], [⟨"seconds", .asc, .last⟩], none, none⟩

def swimmers : Relation :=
  ⟨⟨[⟨"seconds", .integer, seconds_named⟩], by decide⟩,
    [58, 59, 61, 61, 64, 70, 72].map fun seconds => [.int seconds]⟩

/-- Of seven swimmers three are in the first heat. -/
theorem evaluateRows_ntile_swimmers : 0 < 3 ∧ ∃ numbers : List ℕ,
    evaluateRows swimmers.schema heats heats.defaultFrame swimmers.rows =
      .ok (numbers.map fun n : ℕ => .int n) ∧
    numbers.length = 7 ∧ numbers.head? = some 1 ∧ numbers.count 1 = 3 ∧ numbers.count 2 = 2 ∧
      numbers.count 3 = 2 := by
  obtain ⟨numbers, hnumbers, -, hlength, hfirst, -, hcount, -⟩ :=
    evaluateRows_ntile (by decide : 0 < 3) heats.defaultFrame swimmers.rows
  exact ⟨by decide, numbers, hnumbers, hlength, hfirst (by decide), hcount 1, hcount 2, hcount 3⟩

end OrderedRelations.Window
