import OrderedRelations.Proofs.Query.StreakDirections
import OrderedRelations.Proofs.Streak.ArrangedLines
import OrderedRelations.Proofs.Window.Partitioning

/-!
# Streaks within a tolerance

Along every partition, in the order of the keys, the rows that have a measured value are numbered
from one on without gaps, and a number is kept exactly where the value is near enough to the one
before it, in whichever direction it lies.
-/

namespace OrderedRelations.Query
open Streak

variable {r : Relation} {partitions order : Value} {partitionBy : List String}
  {orderBy : List OrderKey} {column : String} {type : ColumnType} {named : Option String}

/-- Whether two coordinates are near each other; at the tolerance itself they are if it counts. -/
def withinTolerance (tolerance : ℤ) (inclusive : Bool) (x y : ℤ) : Bool :=
  if inclusive then decide (|y - x| ≤ tolerance) else decide (|y - x| < tolerance)

theorem gapBreaks_eq (tolerance : ℤ) (inclusive : Bool) (x y : ℤ) :
    gapBreaks tolerance inclusive x y = !withinTolerance tolerance inclusive x y := by
  cases inclusive <;> simp [gapBreaks, withinTolerance, ← decide_not]

/-- Streaks within a tolerance number the rows of every partition that have a value, along the
arrangement of all rows: from one on, with the next number exactly where a value is too far from the
value before it. Whether the tolerance itself is too far the criterion says, or else the settings.
Rows without a value have no number and play no part in the others. -/
theorem streakIds_gap (hr : r.WellFormed)
    (hshape : WindowSpec.shapeOfValues partitions order = .ok (partitionBy, orderBy))
    (hne : orderBy ≠ []) (hpartition : ∀ name ∈ partitionBy, name ∈ r.names)
    (ho : ∀ k ∈ orderBy, k.column ∈ r.names) (hnan : r.NaNFree orderBy) (hc : r.Comparable orderBy)
    (hnamed : named.or (orderBy.head?.map OrderKey.column) = some column)
    (htype : r.schema.typeOf column = .ok type) {tolerance : Offset}
    (htolerance : tolerance.Measures type)
    (hpoints : ∀ i ∈ presentRows r column, (r.cell column i).comparable?.isSome = true)
    (inclusive : Option Bool) (settings : Settings) :
    ∃ parts numbers, Arrangement.positions r partitionBy orderBy = .ok parts ∧
      streakIds r partitions order (.gap named tolerance inclusive) settings = .ok numbers ∧
      LineNumbered r column type
        (withinTolerance (tolerance.length type) (inclusive.getD settings.gapInclusive))
        (parts.map (measuredLine r column)) numbers ∧
      ∀ s : Relation, s.schema = r.schema → valuedRows s column = valuedRows r column →
        ∃ numbers', streakIds s partitions order (.gap named tolerance inclusive) settings =
            .ok numbers' ∧
          (presentRows s column).map (numbers'[·]?) = (presentRows r column).map (numbers[·]?) := by
  have hmeasures : (StreakCriterion.gap named tolerance inclusive).Measures type := htolerance
  have hcolumn : (StreakCriterion.gap named tolerance inclusive).column?.or
      (orderBy.head?.map OrderKey.column) = some column := hnamed
  simp only [streakIds_eq_ids hshape]
  exact exists_lineNumbered hr hne hpartition ho hnan hc hcolumn htype hmeasures hpoints
    (gapBreaks_eq _ _)

def watchColumns : Schema :=
  ⟨[⟨"post", .text, by decide⟩, ⟨"watch", .integer, by decide⟩, ⟨"logged", .datetime, by decide⟩],
    by decide⟩

/-- When the watches of two posts were logged, at an offset from UTC or without one, and one not at
all. -/
def watches : Relation :=
  ⟨watchColumns,
    [[.text "gate", .int 3, Arrangement.hourAt 18 (some 7200000000) (by decide)],
      [.text "gate", .int 1, Arrangement.hourAt 13 none (by decide)],
      [.text "yard", .int 1, Arrangement.hourAt 15 none (by decide)],
      [.text "gate", .int 2, .null],
      [.text "gate", .int 4, Arrangement.hourAt 14 none (by decide)]]⟩

def loggedWatches : Relation :=
  ⟨watchColumns,
    [[.text "gate", .int 3, Arrangement.hourAt 18 (some 7200000000) (by decide)],
      [.text "gate", .int 1, Arrangement.hourAt 13 none (by decide)],
      [.text "yard", .int 1, Arrangement.hourAt 15 none (by decide)],
      [.text "gate", .int 4, Arrangement.hourAt 14 none (by decide)]]⟩

/-- Three hours lie between the first two logged watches of the gate, and two hours, backwards,
between the next two: the latter are within two hours, which itself counts by default. -/
theorem streakIds_gap_watches :
    ∃ parts, Arrangement.positions watches ["post"] [⟨"watch", .asc, .last⟩] = .ok parts ∧
      LineNumbered watches "logged" .datetime (withinTolerance 7200000000 true)
        (parts.map (measuredLine watches "logged")) [.int 2, .int 1, .int 1, .null, .int 2] ∧
      ∃ numbers, streakIds loggedWatches (.text "post") (.text "watch")
          (.gap (some "logged") (.duration 7200000000) none) .defaults = .ok numbers ∧
        (presentRows loggedWatches "logged").map (numbers[·]?) =
          [.int 2, .int 1, .int 1, .int 2].map some := by
  have hshape : WindowSpec.shapeOfValues (.text "post") (.text "watch") =
      .ok (["post"], [⟨"watch", .asc, .last⟩]) := by cbv
  have hids : streakIds watches (.text "post") (.text "watch")
      (.gap (some "logged") (.duration 7200000000) none) .defaults =
        .ok [.int 2, .int 1, .int 1, .null, .int 2] := by cbv
  have htype : watches.schema.typeOf "logged" = .ok .datetime := rfl
  have hcolumn : (some "logged").or
      (([⟨"watch", .asc, .last⟩] : List OrderKey).head?.map OrderKey.column) = some "logged" := rfl
  have htolerance : (Offset.duration 7200000000).Measures .datetime := rfl
  have hr : watches.WellFormed := by decide
  obtain ⟨parts, numbers, hparts, hnumbers, hnumbered, hsame⟩ :=
    streakIds_gap hr hshape (by decide) (by decide) (by decide) (by decide) (by decide) hcolumn htype
      htolerance (by decide) none .defaults
  cases hids.symm.trans hnumbers
  exact ⟨parts, hparts, hnumbered, hsame loggedWatches rfl rfl⟩

end OrderedRelations.Query
