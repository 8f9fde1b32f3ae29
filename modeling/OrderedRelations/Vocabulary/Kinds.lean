/-!
# The closed vocabularies

Column types, directions, null placements, frame units, bound kinds, window functions and
streak modes, each with the label it is written as.
-/

namespace OrderedRelations

/-- A closed set of named members. Messages call a member of it by `subject`. -/
class Labelled (α : Type) where
  subject : String
  members : List α
  label : α → String

inductive ColumnType where
  | integer
  | float
  | text
  | date
  | datetime
  | boolean
  deriving DecidableEq

inductive SortDirection where
  | asc
  | desc
  deriving DecidableEq

inductive NullPlacement where
  | first
  | last
  deriving DecidableEq

inductive FrameUnit where
  | rows
  | range
  deriving DecidableEq

inductive BoundKind where
  | unboundedPreceding
  | preceding
  | currentRow
  | following
  | unboundedFollowing
  deriving DecidableEq

inductive AggregateKind where
  | sum
  | count
  | avg
  | min
  | max
  deriving DecidableEq

inductive FunctionKind where
  | rowNumber
  | rank
  | denseRank
  | ntile
  | lag
  | lead
  | firstValue
  | lastValue
  | aggregate (kind : AggregateKind)
  deriving DecidableEq

inductive StreakMode where
  | qualifying
  | consecutive
  | gap
  deriving DecidableEq

instance : Labelled ColumnType where
  subject := "column_type"
  members := [.integer, .float, .text, .date, .datetime, .boolean]
  label
    | .integer => "integer"
    | .float => "float"
    | .text => "text"
    | .date => "date"
    | .datetime => "datetime"
    | .boolean => "boolean"

instance : Labelled SortDirection where
  subject := "direction"
  members := [.asc, .desc]
  label
    | .asc => "asc"
    | .desc => "desc"

instance : Labelled NullPlacement where
  subject := "nulls"
  members := [.first, .last]
  label
    | .first => "first"
    | .last => "last"

instance : Labelled FrameUnit where
  subject := "frame unit"
  members := [.rows, .range]
  label
    | .rows => "rows"
    | .range => "range"

instance : Labelled BoundKind where
  subject := "frame bound"
  members := [.unboundedPreceding, .preceding, .currentRow, .following, .unboundedFollowing]
  label
    | .unboundedPreceding => "unbounded_preceding"
    | .preceding => "preceding"
    | .currentRow => "current_row"
    | .following => "following"
    | .unboundedFollowing => "unbounded_following"

instance : Labelled AggregateKind where
  subject := "aggregate"
  members := [.sum, .count, .avg, .min, .max]
  label
    | .sum => "sum"
    | .count => "count"
    | .avg => "avg"
    | .min => "min"
    | .max => "max"

instance : Labelled FunctionKind where
  subject := "window function"
  members := [.rowNumber, .rank, .denseRank, .ntile, .lag, .lead, .firstValue, .lastValue,
    .aggregate .sum, .aggregate .count, .aggregate .avg, .aggregate .min, .aggregate .max]
  label
    | .rowNumber => "row_number"
    | .rank => "rank"
    | .denseRank => "dense_rank"
    | .ntile => "ntile"
    | .lag => "lag"
    | .lead => "lead"
    | .firstValue => "first_value"
    | .lastValue => "last_value"
    | .aggregate kind => Labelled.label kind

instance : Labelled StreakMode where
  subject := "streak mode"
  members := [.qualifying, .consecutive, .gap]
  label
    | .qualifying => "qualifying"
    | .consecutive => "consecutive"
    | .gap => "gap"

def labels (α : Type) [Labelled α] : List String :=
  (Labelled.members : List α).map Labelled.label

def ofLabel? (α : Type) [Labelled α] (s : String) : Option α :=
  (Labelled.members : List α).find? fun member => decide (Labelled.label member = s)

namespace ColumnType

def isNumeric : ColumnType → Bool
  | integer => true
  | float => true
  | _ => false

/-- Types whose values lie on a number line. -/
def isMeasurable : ColumnType → Bool
  | integer => true
  | float => true
  | date => true
  | datetime => true
  | _ => false

end ColumnType

namespace FunctionKind

/-- Ranking and offset functions have no meaning without an order. -/
def needsOrder : FunctionKind → Bool
  | rowNumber => true
  | rank => true
  | denseRank => true
  | ntile => true
  | lag => true
  | lead => true
  | _ => false

end FunctionKind
end OrderedRelations
