import OrderedRelations.Proofs.Window.Sliding

/-!
# The moves of sliding

Over frames in order, sliding is a fixed schedule of moves: rows enter, rows leave, and a result is
read off for each frame. The rows enter one by one from the first on, and so they leave.
-/

namespace OrderedRelations.FrameAggregate

/-- What happens to the accumulator that slides. -/
inductive Move where
  | enter (position : ℕ)
  | leave (position : ℕ)
  | read
  deriving DecidableEq

namespace Move

def entered? : Move → Option ℕ
  | enter position => some position
  | _ => none

def left? : Move → Option ℕ
  | leave position => some position
  | _ => none

end Move

/-- The moves for frames, with `removed` rows gone again out of `added`. -/
def moves (added removed : ℕ) : List Span → List Move
  | [] => []
  | f :: rest =>
    (List.range' added ((stop f).toNat - added)).map .enter ++
      ((List.range' removed (f.first.toNat - removed)).map .leave ++
        .read :: moves (stop f).toNat f.first.toNat rest)

/-- Makes moves one by one and lists the results. -/
def perform (values : List Value) : List Move → Accumulator → Result (List Value)
  | [], _ => .ok []
  | .enter position :: rest, acc => do
    let v ← orElse .outOfRange values[position]?
    let acc ← acc.add position v
    perform values rest acc
  | .leave position :: rest, acc => do
    let v ← orElse .outOfRange values[position]?
    let acc ← acc.remove position v
    perform values rest acc
  | .read :: rest, acc => do
    let v ← acc.result
    let results ← perform values rest acc
    pure (v :: results)

variable {values : List Value}

theorem perform_enter (count next : ℕ) (rest : List Move) (acc : Accumulator) :
    perform values ((List.range' next count).map .enter ++ rest) acc =
      enter values count next acc >>= perform values rest := by
  induction count generalizing next acc with
  | zero => rfl
  | succ count ih =>
    rw [List.range'_succ, List.map_cons, List.cons_append, perform, enter]
    cases values[next]? with
    | none => rfl
    | some v =>
      cases hadd : acc.add next v with
      | error e => simp [hadd]
      | ok acc' => simp [hadd, ih]

theorem perform_leave (count next : ℕ) (rest : List Move) (acc : Accumulator) :
    perform values ((List.range' next count).map .leave ++ rest) acc =
      leave values count next acc >>= perform values rest := by
  induction count generalizing next acc with
  | zero => rfl
  | succ count ih =>
    rw [List.range'_succ, List.map_cons, List.cons_append, perform, leave]
    cases values[next]? with
    | none => rfl
    | some v =>
      cases hremove : acc.remove next v with
      | error e => simp [hremove]
      | ok acc' => simp [hremove, ih]

/-- Sliding over frames that go forward makes the scheduled moves. -/
theorem slideFrom_eq_perform {frames : List Span} {added removed : ℕ}
    (h : isMonotone removed added frames = true) (acc : Accumulator) :
    slideFrom values added removed acc frames =
      perform values (moves added removed frames) acc := by
  induction frames generalizing added removed acc with
  | nil => rfl
  | cons f rest ih =>
    obtain ⟨hfirst, hstop, hmono⟩ := isMonotone_cons h
    have hforward : ¬ (f.first < removed ∨ stop f < added) := by omega
    rw [slideFrom, if_neg hforward, moves, perform_enter]
    cases enter values ((stop f).toNat - added) added acc with
    | error e => rfl
    | ok acc' =>
      rw [Result.ok_bind, Result.ok_bind, perform_leave]
      cases leave values (f.first.toNat - removed) removed acc' with
      | error e => rfl
      | ok acc'' =>
        rw [Result.ok_bind, Result.ok_bind, perform]
        simp only [ih hmono]

theorem slide_eq_perform {frames : List Span} (h : isMonotone 0 0 frames = true)
    (acc : Accumulator) : slide values frames acc = perform values (moves 0 0 frames) acc :=
  slideFrom_eq_perform h acc

private theorem filterMap_enter (xs : List ℕ) :
    (xs.map Move.enter).filterMap Move.entered? = xs ∧
      (xs.map Move.enter).filterMap Move.left? = [] := by
  simp [List.filterMap_map, Function.comp_def, Move.entered?, Move.left?]

private theorem filterMap_leave (xs : List ℕ) :
    (xs.map Move.leave).filterMap Move.entered? = [] ∧
      (xs.map Move.leave).filterMap Move.left? = xs := by
  simp [List.filterMap_map, Function.comp_def, Move.entered?, Move.left?]

/-- Rows enter from `added` on and leave from `removed` on, each of them once and none beyond the
frames. -/
theorem touched_once {frames : List Span} {added removed n : ℕ}
    (h : isMonotone removed added frames = true) (hn : ∀ f ∈ frames, stop f ≤ n)
    (hadded : added ≤ n) (hremoved : removed ≤ n) :
    ∃ entries exits : ℕ, added + entries ≤ n ∧ removed + exits ≤ n ∧
      (moves added removed frames).filterMap Move.entered? = List.range' added entries ∧
      (moves added removed frames).filterMap Move.left? = List.range' removed exits := by
  induction frames generalizing added removed with
  | nil => exact ⟨0, 0, hadded, hremoved, rfl, rfl⟩
  | cons f rest ih =>
    obtain ⟨hfirst, hstop, hmono⟩ := isMonotone_cons h
    have hf := hn f (by simp)
    have hle : f.first ≤ stop f := Int.le_max_left _ _
    obtain ⟨entries, exits, hentries, hexits, hentered, hleft⟩ :=
      ih hmono (fun g hg => hn g (by simp [hg])) (by omega) (by omega)
    refine ⟨(stop f).toNat - added + entries, f.first.toNat - removed + exits, by omega, by omega,
      ?_, ?_⟩
    · rw [← List.range'_append_1, Nat.add_sub_cancel' (by omega), ← hentered, moves,
        List.filterMap_append, List.filterMap_append, (filterMap_enter _).1, (filterMap_leave _).1]
      rfl
    · rw [← List.range'_append_1, Nat.add_sub_cancel' (by omega), ← hleft, moves,
        List.filterMap_append, List.filterMap_append, (filterMap_enter _).2, (filterMap_leave _).2]
      rfl

/-- Over frames inside `n` rows, the rows that enter are the first ones, and so are those that
leave. -/
theorem moves_touch_once {frames : List Span} {n : ℕ} (h : isMonotone 0 0 frames = true)
    (hn : ∀ f ∈ frames, stop f ≤ n) :
    ∃ entries exits : ℕ, entries ≤ n ∧ exits ≤ n ∧
      (moves 0 0 frames).filterMap Move.entered? = List.range entries ∧
      (moves 0 0 frames).filterMap Move.left? = List.range exits := by
  have htouched := touched_once (show isMonotone ((0 : ℕ) : ℤ) ((0 : ℕ) : ℤ) frames = true from h)
    hn (Nat.zero_le n) (Nat.zero_le n)
  simpa only [Nat.zero_add, List.range_eq_range'] using htouched

end OrderedRelations.FrameAggregate
