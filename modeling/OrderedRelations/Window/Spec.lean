import OrderedRelations.Window.Frame
import OrderedRelations.Window.OrderKey

/-!
# Window specifications

A window function with its arguments, the partition columns, the order, the frame and the name
of the computed column.
-/

namespace OrderedRelations

inductive WindowFunction where
  | rowNumber
  | rank
  | denseRank
  | ntile (buckets : Nat) (positive : 0 < buckets)
  | lag (column : String) (offset : Nat) (fallback : Value)
  | lead (column : String) (offset : Nat) (fallback : Value)
  | firstValue (column : String)
  | lastValue (column : String)
  | aggregate (kind : AggregateKind) (column : String)
  | countRows

namespace WindowFunction

def kind : WindowFunction → FunctionKind
  | rowNumber => .rowNumber
  | rank => .rank
  | denseRank => .denseRank
  | ntile _ _ => .ntile
  | lag _ _ _ => .lag
  | lead _ _ _ => .lead
  | firstValue _ => .firstValue
  | lastValue _ => .lastValue
  | aggregate kind _ => .aggregate kind
  | countRows => .aggregate .count

def column? : WindowFunction → Option String
  | lag column _ _ => some column
  | lead column _ _ => some column
  | firstValue column => some column
  | lastValue column => some column
  | aggregate _ column => some column
  | _ => none

def outputType (schema : Schema) : WindowFunction → Result ColumnType
  | rowNumber => .ok .integer
  | rank => .ok .integer
  | denseRank => .ok .integer
  | ntile _ _ => .ok .integer
  | countRows => .ok .integer
  | aggregate .count _ => .ok .integer
  | aggregate .avg _ => .ok .float
  | aggregate _ column => schema.typeOf column
  | lag column _ _ => schema.typeOf column
  | lead column _ _ => schema.typeOf column
  | firstValue column => schema.typeOf column
  | lastValue column => schema.typeOf column

end WindowFunction

structure WindowSpec where
  function : WindowFunction
  partitionBy : List String
  orderBy : List OrderKey
  frame : Option FrameSpec
  outputColumn : Option String

namespace WindowSpec

def kind (spec : WindowSpec) : FunctionKind := spec.function.kind

/-- The name of the computed column: the one asked for, or the label of the function. -/
def columnName (spec : WindowSpec) : String :=
  match spec.outputColumn with
  | none => Labelled.label spec.kind
  | some name => if name = "" then Labelled.label spec.kind else name

/-- Up to the peers of the current row when there is an order, the whole partition without
one. -/
def defaultFrame (spec : WindowSpec) : FrameSpec :=
  if spec.orderBy.isEmpty then ⟨.rows, .unboundedPreceding, .unboundedFollowing⟩
  else ⟨.range, .unboundedPreceding, .currentRow⟩

end WindowSpec

def WindowSpec.numbering (partitionBy : List String) (orderBy : List OrderKey) : WindowSpec :=
  ⟨.rowNumber, partitionBy, orderBy, none, none⟩

end OrderedRelations
