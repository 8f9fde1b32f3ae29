import OrderedRelations.Proofs.Query.StreakDirections
import OrderedRelations.Proofs.Streak.QualifyingRuns

/-!
# Streaks of rows that pass a test

Along every partition, in the order of the keys and ties by arrival, the rows that pass are numbered
by the rows before them that do not.
-/

namespace OrderedRelations.Query
open Streak

variable {r : Relation} {partitions order : Value} {partitionBy : List String}
  {orderBy : List OrderKey}

/-- Streaks of rows that pass a test, whichever it is, number the rows of every partition that pass:
each has the number of rows before it that do not, and none of those has a number. So two rows share
theirs exactly where every row between them passes, and the numbers never decrease. -/
theorem streakIds_qualifying (hr : r.WellFormed)
    (hshape : WindowSpec.shapeOfValues partitions order = .ok (partitionBy, orderBy))
    (hne : orderBy ≠ []) (hpartition : ∀ name ∈ partitionBy, name ∈ r.names)
    (ho : ∀ k ∈ orderBy, k.column ∈ r.names) (hnan : r.NaNFree orderBy) (hc : r.Comparable orderBy)
    (test : Row → Result Bool) (passes : Row → Bool)
    (htest : ∀ values ∈ r.rows, test (r.row values) = .ok (passes (r.row values)))
    (settings : Settings) :
    ∃ parts numbers, Arrangement.positions r partitionBy orderBy = .ok parts ∧
      streakIds r partitions order (.qualifying test) settings = .ok numbers ∧
      QualifyingNumbered r (fun i => passes (r.row (r.valuesAt i))) parts numbers := by
  have hparts := Arrangement.positions_eq_passed hpartition ho hc
  have hrows : ∀ i < r.size, test (r.row (r.valuesAt i)) = .ok (passes (r.row (r.valuesAt i))) :=
    fun i hi => htest _ (Relation.valuesAt_mem hi)
  have hsome : orderBy.isEmpty = false := by simpa using hne
  have hids : streakIds r partitions order (.qualifying test) settings =
      qualifyingIds r partitionBy orderBy test := by
    rw [streakIds_eq_ids hshape]
    simp [ids, hsome]
  exact ⟨_, _, hparts, hids.trans (qualifyingIds_eq hr hpartition ho hne hnan hc hrows),
    qualifyingNumbered hr hnan hparts _⟩

/-- Laps of two runners, some in one minute of the race, and whether they were run clean. -/
def laps : Relation :=
  ⟨⟨[⟨"runner", .text, by decide⟩, ⟨"minute", .integer, by decide⟩, ⟨"clean", .boolean, by decide⟩],
      by decide⟩,
    [[.text "ann", .int 2, .bool true], [.text "ann", .int 1, .bool true],
      [.text "bob", .int 1, .bool false], [.text "ann", .int 2, .bool false],
      [.text "ann", .int 2, .bool true], [.text "bob", .null, .bool true]]⟩

def isClean (row : Row) : Bool :=
  match row.get "clean" with
  | .ok (.bool clean) => clean
  | _ => false

/-- Of the laps that tie in the second minute, one was not clean and parts the other two. -/
theorem streakIds_qualifying_laps :
    ∃ parts, Arrangement.positions laps ["runner"] [⟨"minute", .asc, .last⟩] = .ok parts ∧
      streakIds laps (.text "runner") (.text "minute") (.qualifying fun row => .ok (isClean row))
        .defaults = .ok [.int 0, .int 0, .null, .null, .int 1, .int 1] ∧
      QualifyingNumbered laps (fun i => isClean (laps.row (laps.valuesAt i))) parts
        [.int 0, .int 0, .null, .null, .int 1, .int 1] := by
  have hshape : WindowSpec.shapeOfValues (.text "runner") (.text "minute") =
      .ok (["runner"], [⟨"minute", .asc, .last⟩]) := by cbv
  have hids : streakIds laps (.text "runner") (.text "minute")
      (.qualifying fun row => .ok (isClean row)) .defaults =
        .ok [.int 0, .int 0, .null, .null, .int 1, .int 1] := by cbv
  have hr : laps.WellFormed := by decide
  obtain ⟨parts, numbers, hparts, hnumbers, hnumbered⟩ :=
    streakIds_qualifying hr hshape (by decide) (by decide) (by decide) (by decide) (by decide)
      (fun row => .ok (isClean row)) isClean (fun _ _ => rfl) .defaults
  cases hids.symm.trans hnumbers
  exact ⟨parts, hparts, hids, hnumbered⟩

end OrderedRelations.Query
