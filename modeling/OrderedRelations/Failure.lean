import OrderedRelations.Vocabulary.Kinds
import OrderedRelations.Window.Offset

/-!
# Failures

Every way in which building a relation, reading a description or evaluating a query can fail,
by cause. `Failure.message?` has the wording of each; failures that a number, an index or a
type alone explains have none.
-/

namespace OrderedRelations

/-- Texts and calls that mean nothing. -/
inductive TextFault where
  | notLowerSnake (subject : String) (got : Value)
  | notAmong (subject : String) (labels : List String) (got : Value)
  | unreadableOrderKey (text : String)
  | framesGoBack
  | notAnAggregate (kind : FunctionKind)
  | tooManyDigits (digits limit : Nat)
  | unspellable (limit : Nat)

/-- Rows and columns that do not fit their schema. -/
inductive SchemaFault where
  | unnamedColumn (got : Value)
  | duplicateColumn (name : String)
  | unknownColumn (name : String) (known : List String)
  | nonconforming (column : String) (type : ColumnType) (got : Value)
  | rowLength (values columns : Nat)
  | notARecord (got : Value)
  | unknownFields (names : List String)
  | missingFields (names : List String)
  | columnLength (column : Value) (values rows : Nat)
  | differentSchemas (names others : List String)
  | outputExists (name : String)
  | notNumeric (kind : AggregateKind) (column : String) (type : ColumnType)
  | durationMisfit (role : String) (microseconds : Int) (type : ColumnType)

/-- Partition, order and measured columns that cannot serve. -/
inductive KeyFault where
  | partitionColumn (name : String) (known : List String)
  | orderColumn (name : String) (known : List String)
  | streakColumn (name : String) (known : List String)
  | offsetOrder (column : String) (type : ColumnType)
  | unmeasurable (column : String) (type : ColumnType)

/-- Evaluations that need an order and have none. -/
inductive OrderFault where
  | function (kind : FunctionKind)
  | streaks

/-- Frame bounds that make no frame. -/
inductive FrameFault where
  | offsetRequired (kind : BoundKind)
  | offsetForbidden (kind : BoundKind)
  | negativeOffset (offset : Offset)
  | startsAtEnd
  | endsAtStart
  | startAfterEnd (start stop : BoundKind) (startOffset stopOffset : Option Offset)
  | rowsOffset (offset : Offset)
  | offsetKeys (count : Nat)
  | durationOffset (microseconds : Int) (type : ColumnType) (column : String)

/-- Hierarchies whose anchor and member do not fit together. -/
inductive HierarchyFault where
  | anchorKind (name : String)
  | memberKind (name : String)
  | unknownCycleKeys (missing known : List String)
  | outputExists (name : String)
  | memberSchema (names expected : List String)
  | joinColumns (parents children : List String)

/-- Settings out of range, and files that cannot be read. -/
inductive SettingsFault where
  | negativeDepth (n : Int)
  | tooFewWorkers (n : Int)
  | emptyGroupColumn
  | notWhole (key : String) (got : Value)
  | malformedFile

/-- Refusals of a whole record that its own rules state. -/
inductive RecordFault where
  | text (fault : TextFault)
  | columnRequired (kind : AggregateKind)
  | negativeTolerance (tolerance : Offset)
  | sameOutputColumns

/-- One problem with a record: a stated refusal, or a field of the wrong shape. -/
inductive RecordProblem where
  | stated (fault : RecordFault)
  | shape

inductive Failure where
  | text (fault : TextFault)
  | schema (fault : SchemaFault)
  | key (fault : KeyFault)
  | missingOrder (fault : OrderFault)
  | frame (fault : FrameFault)
  | hierarchy (fault : HierarchyFault)
  | depthLimit (limit : Int) (pending : Nat)
  | settings (fault : SettingsFault)
  | unsupportedTypes (columns : List String)
  | record (problems : List RecordProblem)
  | mislabelled (vocabulary member label : String)
  | immutableRow
  | unsupportedRule (rule : Value)
  | overflow
  | mistyped
  | outOfRange
  | unimplemented
  | columnar
  | unfinished

open Text (quoted quotedList quotedTuple)

def TextFault.message : TextFault → String
  | notLowerSnake subject got =>
    subject ++ " must be lower_snake (got: " ++ got.literal ++ ")"
  | notAmong subject labels got =>
    subject ++ " must be one of " ++ quotedList labels ++ " (got " ++ got.literal ++ ")"
  | unreadableOrderKey text => "cannot parse order key " ++ quoted text
  | framesGoBack => "frame bounds must be non-decreasing to slide"
  | notAnAggregate kind => Labelled.label kind ++ " is not an aggregate"
  | tooManyDigits digits limit =>
    "Exceeds the limit (" ++ toString limit ++
      " digits) for integer string conversion: value has " ++ toString digits ++
      " digits; use sys.set_int_max_str_digits() to increase the limit"
  | unspellable limit =>
    "Exceeds the limit (" ++ toString limit ++ " digits) for integer string conversion; " ++
      "use sys.set_int_max_str_digits() to increase the limit"

def SchemaFault.message : SchemaFault → String
  | unnamedColumn got => "column name must be a non-empty string, got " ++ got.literal
  | duplicateColumn name => "duplicate column name " ++ quoted name
  | unknownColumn name known =>
    "unknown column " ++ quoted name ++ " (known: " ++ quotedList known ++ ")"
  | nonconforming column type got =>
    "column " ++ quoted column ++ " expects " ++ Labelled.label type ++ ", got " ++
      got.kindName ++ " " ++ got.literal
  | rowLength values columns =>
    "row has " ++ toString values ++ " values for " ++ toString columns ++ " columns"
  | notARecord got => "rows must be mappings, got " ++ got.kindName
  | unknownFields names => "row has unknown columns " ++ quotedList names
  | missingFields names => "row is missing columns " ++ quotedList names
  | columnLength column values rows =>
    "column " ++ column.literal ++ " has " ++ toString values ++ " values for " ++
      toString rows ++ " rows"
  | differentSchemas names others =>
    "cannot concat relations with different schemas: " ++ quotedList names ++ " vs " ++
      quotedList others
  | outputExists name => "output column " ++ quoted name ++ " already exists"
  | notNumeric kind column type =>
    Labelled.label kind ++ " requires a numeric column; " ++ quoted column ++ " is " ++
      Labelled.label type
  | durationMisfit role microseconds type =>
    "timedelta " ++ role ++ " " ++ (Value.duration microseconds).literal ++
      " cannot apply to a " ++ Labelled.label type ++ " column"

def KeyFault.message : KeyFault → String
  | partitionColumn name known =>
    "partition column " ++ quoted name ++ " not in " ++ quotedList known
  | orderColumn name known => "order column " ++ quoted name ++ " not in " ++ quotedList known
  | streakColumn name known => "streak column " ++ quoted name ++ " not in " ++ quotedList known
  | offsetOrder column type =>
    "RANGE offsets need a numeric or temporal ORDER BY column; " ++ quoted column ++ " is " ++
      Labelled.label type
  | unmeasurable column type =>
    "streak column " ++ quoted column ++ " must be numeric or temporal, got " ++
      Labelled.label type

def OrderFault.message : OrderFault → String
  | function kind => Labelled.label kind ++ " requires an ORDER BY"
  | streaks => "streak grouping requires an ORDER BY"

/-- A bound as messages describe it. -/
def describeBound (kind : BoundKind) (offset : Option Offset) : String :=
  "(" ++ Labelled.label kind ++ ", offset=" ++ (offset.map Offset.literal).getD "None" ++ ")"

def FrameFault.message : FrameFault → String
  | offsetRequired kind => Labelled.label kind ++ " bound requires an offset"
  | offsetForbidden kind => Labelled.label kind ++ " bound takes no offset"
  | negativeOffset offset => "frame offset must be non-negative, got " ++ offset.literal
  | startsAtEnd => "frame start cannot be UNBOUNDED FOLLOWING"
  | endsAtStart => "frame end cannot be UNBOUNDED PRECEDING"
  | startAfterEnd start stop startOffset stopOffset =>
    "frame start " ++ describeBound start startOffset ++ " lies after frame end " ++
      describeBound stop stopOffset
  | rowsOffset offset => "ROWS frame offsets must be integers, got " ++ offset.literal
  | offsetKeys count =>
    "RANGE frames with offsets need exactly one ORDER BY column, got " ++ toString count
  | durationOffset microseconds type column =>
    "timedelta offset " ++ (Value.duration microseconds).literal ++ " cannot apply to " ++
      Labelled.label type ++ " column " ++ quoted column

def HierarchyFault.message : HierarchyFault → String
  | anchorKind name => "anchor must return a Relation, got " ++ name
  | memberKind name => "recursive member must return a Relation, got " ++ name
  | unknownCycleKeys missing known =>
    "cycle key columns " ++ quotedList missing ++ " not in anchor schema " ++ quotedList known
  | outputExists name =>
    "output column " ++ quoted name ++ " already exists in the anchor schema"
  | memberSchema names expected =>
    "recursive member schema " ++ quotedList names ++ " does not match anchor schema " ++
      quotedList expected
  | joinColumns parents children =>
    "join_member needs matching non-empty column lists, got " ++ quotedTuple parents ++
      " and " ++ quotedTuple children

def SettingsFault.message? : SettingsFault → Option String
  | negativeDepth n => some ("max_depth must be >= 0, got " ++ toString n)
  | tooFewWorkers n => some ("max_workers must be >= 1, got " ++ toString n)
  | emptyGroupColumn => some "group_id_column must be a non-empty string"
  | notWhole key got => some (key ++ " must be an integer, got " ++ got.literal)
  | malformedFile => none

def RecordFault.message : RecordFault → String
  | text fault => fault.message
  | columnRequired kind => Labelled.label kind ++ " requires a column (only count may omit it)"
  | negativeTolerance tolerance => "tolerance must be non-negative, got " ++ tolerance.literal
  | sameOutputColumns => "depth_column and path_column must differ"

def RecordProblem.message? : RecordProblem → Option String
  | stated fault => some fault.message
  | shape => none

/-- The wording of a failure. A record has one only when each of its problems does. -/
def Failure.message? : Failure → Option String
  | text fault => some fault.message
  | schema fault => some fault.message
  | key fault => some fault.message
  | missingOrder fault => some fault.message
  | frame fault => some fault.message
  | hierarchy fault => some fault.message
  | depthLimit limit pending =>
    some ("recursion reached max_depth=" ++ toString limit ++ " with " ++ toString pending ++
      " frontier row(s) still pending")
  | settings fault => fault.message?
  | unsupportedTypes columns => some ("unsupported column dtypes: " ++ quotedList columns)
  | record problems => (problems.mapM RecordProblem.message?).map ("; ".intercalate ·)
  | mislabelled vocabulary member label =>
    some (vocabulary ++ "." ++ member ++ " has non-lower_snake value: " ++ quoted label)
  | immutableRow => some "Row is immutable"
  | unsupportedRule rule => some ("unsupported streak rule " ++ rule.literal)
  | overflow => none
  | mistyped => none
  | outOfRange => none
  | unimplemented => none
  | columnar => none
  | unfinished => none

/-- What a computation answers, or why it has no answer. -/
abbrev Result (α : Type) := Except Failure α

/-- A partial operation whose failure has the given cause. -/
def orElse {α : Type} (failure : Failure) : Option α → Result α
  | some a => .ok a
  | none => .error failure

end OrderedRelations
