import OrderedRelations.Record.Reading
import OrderedRelations.Hierarchy.Resolution
import OrderedRelations.Relation.RowTest
import OrderedRelations.Streak.Grouping

/-!
# Descriptions as records

Order keys, frames, window functions, window specifications and streak criteria from records of
loosely typed fields.
-/

namespace OrderedRelations

open Reading (both misshapen nested accept)
open FieldList (required optional only)

/-- Settles direction and nulls before any field is looked at. -/
def OrderKey.ofFields (fields : FieldList) : Result OrderKey :=
  match OrderKey.settle ((fields.lookup "direction").getD .null)
      ((fields.lookup "nulls").getD .null) with
  | .error fault => .error (.record [.stated (.text fault)])
  | .ok (direction, nulls) =>
    (both (required fields "column" Reading.text)
      (only fields ["column", "direction", "nulls"])).finish fun (column, _) =>
        .ok ⟨column, direction, nulls⟩

namespace FrameBound

def ofFields (fields : FieldList) : Result FrameBound :=
  (both (required fields "kind" fun v => Reading.ofText (Label.read BoundKind v))
    (both (optional fields "offset" none (Reading.nullable Reading.offset))
      (only fields ["kind", "offset"]))).finish fun (kind, offset, _) => make kind offset

def ofValue : Value → Reading FrameBound
  | .record fields => nested (ofFields fields)
  | _ => misshapen

end FrameBound

namespace FrameSpec

def ofFields (fields : FieldList) : Result FrameSpec :=
  (both (optional fields "unit" .rows fun v => Reading.ofText (Label.read FrameUnit v))
    (both (required fields "start" FrameBound.ofValue)
      (both (optional fields "end" .currentRow FrameBound.ofValue)
        (only fields ["unit", "start", "end"])))).finish fun (unit, start, stop, _) =>
          make unit start stop

def ofValue : Value → Reading FrameSpec
  | .record fields => nested (ofFields fields)
  | _ => misshapen

end FrameSpec

namespace WindowFunction

def kindField (fields : FieldList) (label : String) : Reading Unit :=
  optional fields "kind" () fun v =>
    match v with
    | .text s => if s = label then accept () else misshapen
    | _ => misshapen

def bare (function : WindowFunction) (fields : FieldList) : Result WindowFunction :=
  (both (kindField fields (Labelled.label function.kind)) (only fields ["kind"])).finish
    fun _ => .ok function

def ntileOfFields (fields : FieldList) : Result WindowFunction :=
  (both (kindField fields "ntile")
    (both (required fields "buckets" (Reading.wholeFrom 1))
      (only fields ["kind", "buckets"]))).finish fun (_, buckets, _) =>
        .ok (.ntile buckets.val (Nat.lt_of_lt_of_le Nat.zero_lt_one buckets.property))

/-- Column, offset and fallback of a function that looks some rows away. -/
def offsetFields (label : String) (fields : FieldList)
    (build : String → Nat → Value → WindowFunction) : Result WindowFunction :=
  (both (kindField fields label)
    (both (required fields "column" Reading.text)
      (both (optional fields "offset" 1 fun v =>
          Reading.map Subtype.val (Reading.wholeFrom 0 v))
        (both (optional fields "default" .null accept)
          (only fields ["kind", "column", "offset", "default"]))))).finish
            fun (_, column, offset, fallback, _) => .ok (build column offset fallback)

def valueFields (label : String) (fields : FieldList) (build : String → WindowFunction) :
    Result WindowFunction :=
  (both (kindField fields label)
    (both (required fields "column" Reading.text)
      (only fields ["kind", "column"]))).finish fun (_, column, _) => .ok (build column)

/-- Only a count goes without a column. -/
def makeAggregate (kind : AggregateKind) (column : Option String) : Result WindowFunction :=
  match kind, column with
  | kind, some column => .ok (.aggregate kind column)
  | .count, none => .ok .countRows
  | kind, none => .error (.record [.stated (.columnRequired kind)])

def aggregateKind : Value → Reading AggregateKind
  | .text s => Reading.ofOption (ofLabel? AggregateKind s)
  | _ => misshapen

def aggregateOfFields (fields : FieldList) : Result WindowFunction :=
  (both (required fields "kind" aggregateKind)
    (both (optional fields "column" none (Reading.nullable Reading.text))
      (only fields ["kind", "column"]))).finish fun (kind, column, _) =>
        makeAggregate kind column

def ofKind (kind : FunctionKind) (fields : FieldList) : Result WindowFunction :=
  match kind with
  | .rowNumber => bare .rowNumber fields
  | .rank => bare .rank fields
  | .denseRank => bare .denseRank fields
  | .ntile => ntileOfFields fields
  | .lag => offsetFields "lag" fields .lag
  | .lead => offsetFields "lead" fields .lead
  | .firstValue => valueFields "first_value" fields .firstValue
  | .lastValue => valueFields "last_value" fields .lastValue
  | .aggregate _ => aggregateOfFields fields

/-- The kind is written exactly as its label here. -/
def ofValue : Value → Reading WindowFunction
  | .record fields =>
    match fields.lookup "kind" with
    | some (.text s) =>
      match ofLabel? FunctionKind s with
      | some kind => nested (ofKind kind fields)
      | none => misshapen
    | _ => misshapen
  | _ => misshapen

end WindowFunction

/-- A key from its words or from its fields. -/
def OrderKey.ofValue : Value → Result OrderKey
  | .text s => OrderKey.parse s
  | .record fields => OrderKey.ofFields fields
  | _ => .error .mistyped

namespace WindowSpec

/-- The elements of an order: a single key stands for a list of one. -/
def orderItems : Value → Result (List Value)
  | .text s => .ok [.text s]
  | .record fields => .ok [.record fields]
  | .list items => .ok items
  | _ => .error .mistyped

/-- An element of an order that has been read, or is a record still to be read. -/
inductive OrderItem where
  | key (k : OrderKey)
  | other (v : Value)

/-- Parses the texts among the elements of an order; the first bad one refuses the field. -/
def parseItems : List Value → Reading (List OrderItem)
  | [] => accept []
  | .text s :: rest =>
    match OrderKey.parse s with
    | .ok k => Reading.map (.key k :: ·) (parseItems rest)
    | .error (.text fault) => Reading.refuse (.stated (.text fault))
    | .error (.record problems) => .ok (.error problems)
    | .error failure => .error failure
  | v :: rest => Reading.map (.other v :: ·) (parseItems rest)

def readItem : OrderItem → Reading OrderKey
  | .key k => accept k
  | .other (.record fields) => nested (OrderKey.ofFields fields)
  | .other _ => misshapen

def order (v : Value) : Reading (List OrderKey) :=
  match orderItems v with
  | .error failure => .error failure
  | .ok items => Reading.bind (parseItems items) (Reading.all readItem)

/-- The partition columns and the order, without the rest of a specification. -/
def shapeOfValues (partitionBy orderBy : Value) : Result (List String × List OrderKey) :=
  (both (Reading.textOrTexts partitionBy) (order orderBy)).finish .ok

def ofFields (fields : FieldList) : Result WindowSpec :=
  (both (required fields "function" WindowFunction.ofValue)
    (both (optional fields "partition_by" [] Reading.textOrTexts)
      (both (optional fields "order_by" [] order)
        (both (optional fields "frame" none (Reading.nullable FrameSpec.ofValue))
          (both (optional fields "output_column" none (Reading.nullable Reading.text))
            (only fields ["function", "partition_by", "order_by", "frame",
              "output_column"])))))).finish
                fun (function, partitionBy, orderBy, frame, outputColumn, _) =>
                  .ok ⟨function, partitionBy, orderBy, frame, outputColumn⟩

end WindowSpec

namespace StreakCriterion

def modeField (fields : FieldList) (label : String) : Reading Unit :=
  optional fields "mode" () fun v =>
    match v with
    | .text s => if s = label then accept () else misshapen
    | _ => misshapen

/-- A test is no plain value, so it is handed over beside the fields. -/
def qualifyingOfFields (fields : FieldList) (test : Option RowTest) : Result StreakCriterion :=
  (both (modeField fields "qualifying")
    (both (Reading.ofOption test) (only fields ["mode", "predicate"]))).finish
      fun (_, t, _) => .ok (.qualifying fun row => t.passes row)

def consecutiveOfFields (fields : FieldList) : Result StreakCriterion :=
  (both (modeField fields "consecutive")
    (both (optional fields "column" none (Reading.nullable Reading.text))
      (both (optional fields "step" none (Reading.nullable Reading.offset))
        (only fields ["mode", "column", "step"])))).finish fun (_, column, step, _) =>
          .ok (.consecutive column step)

/-- A tolerance that is not negative. -/
def checkTolerance (tolerance : Offset) : Reading Offset :=
  match tolerance.magnitude? with
  | none => .error .overflow
  | some size =>
    if (Quantity.real size).less (.whole 0) then
      Reading.refuse (.stated (.negativeTolerance tolerance))
    else accept tolerance

def gapOfFields (fields : FieldList) : Result StreakCriterion :=
  (both (modeField fields "gap")
    (both (optional fields "column" none (Reading.nullable Reading.text))
      (both (required fields "tolerance" fun v => Reading.bind (Reading.offset v) checkTolerance)
        (both (optional fields "inclusive" none (Reading.nullable Reading.switch))
          (only fields ["mode", "column", "tolerance", "inclusive"]))))).finish
            fun (_, column, tolerance, inclusive, _) => .ok (.gap column tolerance inclusive)

def ofMode (mode : StreakMode) (fields : FieldList) (test : Option RowTest) :
    Result StreakCriterion :=
  match mode with
  | .qualifying => qualifyingOfFields fields test
  | .consecutive => consecutiveOfFields fields
  | .gap => gapOfFields fields

/-- A criterion from a record that says its mode. -/
def ofFields (fields : FieldList) (test : Option RowTest) : Result StreakCriterion :=
  match fields.lookup "mode" with
  | some (.text s) =>
    match ofLabel? StreakMode s with
    | some mode => ofMode mode fields test
    | none => .error (.record [.shape])
  | _ => .error (.record [.shape])

/-- A number or a duration is the tolerance of a gap, and a record describes a criterion; no
other value is a rule. -/
def ofRule (v : Value) : Result StreakCriterion :=
  match v with
  | .int n => gapOfFields [("tolerance", .int n)]
  | .float x => gapOfFields [("tolerance", .float x)]
  | .duration m => gapOfFields [("tolerance", .duration m)]
  | .record fields => ofFields fields none
  | _ => .error (.unsupportedRule v)

end StreakCriterion

namespace HierarchySpec

/-- The depth and the path need columns of their own. -/
def checkColumns (depthColumn pathColumn : Option String) : Result Unit :=
  match depthColumn, pathColumn with
  | some depth, some path =>
    if depth = path then .error (.record [.stated .sameOutputColumns]) else .ok ()
  | _, _ => .ok ()

def cycleKeyField (v : Value) : Reading (List String) :=
  Reading.bind (Reading.textOrTexts v) fun names =>
    if names.isEmpty then misshapen else accept names

/-- A specification from its callables, absent where they are none, and its other fields. -/
def ofFields (anchor : Option (Relation → Result Produced))
    (member : Option (Relation → Relation → Result Produced)) (fields : FieldList) :
    Result HierarchySpec :=
  (both (Reading.ofOption anchor)
    (both (Reading.ofOption member)
      (both (required fields "cycle_key_columns" cycleKeyField)
        (both (optional fields "max_depth" 0 fun v =>
            Reading.map Subtype.val (Reading.wholeFrom 0 v))
          (both (optional fields "depth_column" none (Reading.nullable Reading.text))
            (both (optional fields "path_column" none (Reading.nullable Reading.text))
              (only fields ["anchor", "member", "cycle_key_columns", "max_depth",
                "depth_column", "path_column"]))))))).finish
                  fun (anchor, member, cycleKey, maxDepth, depthColumn, pathColumn, _) => do
                    checkColumns depthColumn pathColumn
                    pure ⟨anchor, member, cycleKey, maxDepth, depthColumn, pathColumn⟩

end HierarchySpec
end OrderedRelations
