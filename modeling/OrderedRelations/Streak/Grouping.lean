import OrderedRelations.Settings.Basic
import OrderedRelations.Window.Evaluation

/-!
# Streaks

Ids for runs of rows, built from window functions alone. A run holds rows that pass a test
without interruption, or values a step apart, or values within a tolerance of their neighbour.
Rows that do not take part have a null id and do not break a run of the last two kinds.
-/

namespace OrderedRelations

inductive StreakCriterion where
  | qualifying (test : Row → Result Bool)
  | consecutive (column : Option String) (step : Option Offset)
  | gap (column : Option String) (tolerance : Offset) (inclusive : Option Bool)

namespace Streak

/-- The `n`-th name to try for a scratch column. -/
def candidate (stem : String) : Nat → String
  | 0 => "__" ++ stem
  | n + 1 => "__" ++ stem ++ "_" ++ toString (n + 1)

/-- The first free name from the `n`-th on, with at most `fuel` names skipped. -/
def search (schema : Schema) (stem : String) : (fuel n : Nat) → String
  | 0, n => candidate stem n
  | fuel + 1, n =>
    if schema.contains (candidate stem n) then search schema stem fuel (n + 1)
    else candidate stem n

/-- A name that no column has; as many names as there are columns may be taken. -/
def scratchName (schema : Schema) (stem : String) : String := search schema stem schema.width 0

def measured (schema : Schema) (orderBy : List OrderKey) (column : Option String) :
    Result (String × ColumnType) := do
  let name ← match column, orderBy with
    | some name, _ => pure name
    | none, k :: _ => pure k.column
    | none, [] => throw (.missingOrder .streaks)
  match schema.find? name with
  | none => throw (.key (.streakColumn name schema.names))
  | some c =>
    if c.type.isMeasurable then pure (name, c.type)
    else throw (.key (.unmeasurable name c.type))

/-- An offset in the units of the measured column; durations do not measure numbers. -/
def distance (role : String) (type : ColumnType) (offset : Offset) : Result Quantity :=
  match (offset.inUnitsOf type).quantity?, offset with
  | some q, _ => .ok q
  | none, .duration m => .error (.schema (.durationMisfit role m type))
  | none, _ => .error .mistyped

def presentPositions (values : List Value) : List Nat :=
  values.zipIdx.filterMap fun (v, i) => if v.isNull then none else some i

def present (r : Relation) (positions : List Nat) : Relation :=
  ⟨r.schema, Arrangement.rowsAt r positions⟩

/-- Whether runs step downwards: the first key on the measured column descends. -/
def stepsDown (orderBy : List OrderKey) (column : String) : Bool :=
  match orderBy.find? fun k => decide (k.column = column) with
  | some k => k.descending
  | none => false

def countStarts (r : Relation) (partitionBy : List String) (orderBy : List OrderKey)
    (starts : List Bool) : Result (List Value) := do
  let flag := scratchName r.schema "starts_new"
  let flagged ← r.withColumn flag .integer (starts.map fun b => .int (if b then 1 else 0))
  Window.evaluate flagged ⟨.aggregate .sum flag, partitionBy, orderBy, some .running, none⟩

def difference : Value → Value → Value
  | .int m, .int n => .int (m - n)
  | _, _ => .null

/-- Rows that pass a test have the number of earlier rows that fail it as their id. -/
def qualifyingIds (r : Relation) (partitionBy : List String) (orderBy : List OrderKey)
    (test : Row → Result Bool) : Result (List Value) := do
  let flags ← r.rows.mapM fun values => test (r.row values)
  let flag := scratchName r.schema "qualifies"
  let flagged ← r.withColumn flag .boolean (flags.map .bool)
  let all ← Window.evaluate flagged (.numbering partitionBy orderBy)
  let within ← Window.evaluate flagged (.numbering (partitionBy ++ [flag]) orderBy)
  pure ((flags.zip (all.zip within)).map fun (b, m, n) => if b then difference m n else .null)

/-- What is left of a coordinate after a number of steps. -/
def island (type : ColumnType) (step : Quantity) (v rowNumber : Value) : Result Quantity := do
  let c ← v.quantityAt type
  let n ← orElse .mistyped rowNumber.quantity?
  let covered ← orElse .overflow (n.mul? step)
  orElse .overflow (c.sub? covered)

/-- Whether a row starts a run: there is no row before it, or its island is another one. -/
def startsIsland (key : Quantity) (previous : Value) : Bool :=
  match previous.quantity? with
  | some q => !key.same q
  | none => true

/-- Runs of values a step apart: coordinate minus row number times step is constant. -/
def consecutiveStarts (r : Relation) (partitionBy : List String) (orderBy : List OrderKey)
    (column : String) (type : ColumnType) (step : Quantity) : Result (List Bool) := do
  let numbers ← Window.evaluate r (.numbering partitionBy orderBy)
  let values ← r.column column
  let islands ← (values.zip numbers).mapM fun (v, n) => island type step v n
  let name := scratchName r.schema "island"
  let kind : ColumnType := if islands.all Quantity.isWhole then .integer else .float
  let keyed ← r.withColumn name kind (islands.map Value.ofQuantity)
  let previous ← Window.evaluate keyed ⟨.lag name 1 .null, partitionBy, orderBy, none, none⟩
  pure ((islands.zip previous).map fun (key, p) => startsIsland key p)

/-- Whether a row starts a run: there is no row before it, or the gap to it is too large. -/
def startsAfterGap (type : ColumnType) (tolerance : Quantity) (inclusive : Bool)
    (v previous : Value) : Result Bool :=
  if previous.isNull then .ok true
  else do
    let a ← v.quantityAt type
    let b ← previous.quantityAt type
    let d ← orElse .overflow (a.sub? b)
    pure (if inclusive then tolerance.less d.abs else tolerance.atMost d.abs)

def gapStarts (r : Relation) (partitionBy : List String) (orderBy : List OrderKey)
    (column : String) (type : ColumnType) (tolerance : Quantity) (inclusive : Bool) :
    Result (List Bool) := do
  let previous ← Window.evaluate r ⟨.lag column 1 .null, partitionBy, orderBy, none, none⟩
  let values ← r.column column
  (values.zip previous).mapM fun (v, p) => startsAfterGap type tolerance inclusive v p

/-- Ids of the rows that have a measured value, null for the others. -/
def numberRuns (r : Relation) (partitionBy : List String) (orderBy : List OrderKey)
    (column : String) (starts : Relation → Result (List Bool)) : Result (List Value) := do
  let values ← r.column column
  let positions := presentPositions values
  let rows := present r positions
  let flags ← starts rows
  let ids ← countStarts rows partitionBy orderBy flags
  pure (Window.scatter r.size (positions.zip ids))

def ids (r : Relation) (partitionBy : List String) (orderBy : List OrderKey)
    (criterion : StreakCriterion) (gapInclusive : Bool) : Result (List Value) :=
  if orderBy.isEmpty then .error (.missingOrder .streaks)
  else match criterion with
  | .qualifying test => qualifyingIds r partitionBy orderBy test
  | .consecutive column step => do
    let (name, type) ← measured r.schema orderBy column
    let d ← distance "step" type (step.getD (.whole 1))
    let d := if stepsDown orderBy name then d.neg else d
    numberRuns r partitionBy orderBy name fun rows =>
      consecutiveStarts rows partitionBy orderBy name type d
  | .gap column tolerance inclusive => do
    let (name, type) ← measured r.schema orderBy column
    let d ← distance "tolerance" type tolerance
    numberRuns r partitionBy orderBy name fun rows =>
      gapStarts rows partitionBy orderBy name type d (inclusive.getD gapInclusive)

end Streak
end OrderedRelations
