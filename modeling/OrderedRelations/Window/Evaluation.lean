import OrderedRelations.Window.FrameAggregate
import OrderedRelations.Window.FrameExtent

/-!
# Evaluating window functions

A window function is checked against the relation, evaluated on each arranged partition by
itself, and gives one value for each row, in the order of the rows.
-/

namespace OrderedRelations.Window

def requireNumeric (schema : Schema) : WindowFunction → Result Unit
  | .aggregate .sum column => check .sum column
  | .aggregate .avg column => check .avg column
  | function => match function.column? with
    | some column => (schema.typeOf column).map fun _ => ()
    | none => .ok ()
where
  check (kind : AggregateKind) (column : String) : Result Unit := do
    let type ← schema.typeOf column
    if type.isNumeric then pure ()
    else throw (.schema (.notNumeric kind column type))

/-- Durations do not measure numbers. -/
def checkDuration (column : String) (type : ColumnType) (bound : FrameBound) : Result Unit :=
  match bound.offset? with
  | some (.duration m) =>
    if type.isNumeric then .error (.frame (.durationOffset m type column)) else .ok ()
  | _ => .ok ()

/-- Range offsets need a single order column on a number line. -/
def checkRangeOffsets (schema : Schema) (spec : WindowSpec) (frame : FrameSpec) :
    Result Unit :=
  match spec.orderBy with
  | [k] => do
    let type ← schema.typeOf k.column
    if type.isMeasurable then
      checkDuration k.column type frame.start
      checkDuration k.column type frame.stop
    else throw (.key (.offsetOrder k.column type))
  | keys => .error (.frame (.offsetKeys keys.length))

/-- Checks a specification against a schema and gives the frame that applies; ranking and
offset functions have none. -/
def validate (schema : Schema) (spec : WindowSpec) : Result (Option FrameSpec) := do
  if spec.kind.needsOrder && spec.orderBy.isEmpty then
    throw (.missingOrder (.function spec.kind))
  Arrangement.checkColumns schema spec.partitionBy spec.orderBy
  requireNumeric schema spec.function
  if spec.kind.needsOrder then pure none
  else
    let frame := spec.frame.getD spec.defaultFrame
    if frame.unit = .range ∧ frame.hasOffsets = true then checkRangeOffsets schema spec frame
    pure (some frame)

/-- How many rows a bucket takes: `size`, or one more while it is among the first `extra`. -/
def room (size extra bucket : Nat) : Nat := size + if bucket ≤ extra then 1 else 0

/-- The buckets take the rows that are left: all of them have room, or the current one and the other
ones among the first `extra` have enough. -/
def HasRoom (size extra rows bucket remaining : Nat) : Prop :=
  0 < size ∨ rows ≤ remaining + (extra - bucket)

section HasRoom

variable {size extra rows bucket remaining : Nat}

theorem HasRoom.next (h : HasRoom size extra (rows + 1) bucket 0) :
    0 < room size extra (bucket + 1) ∧
      HasRoom size extra (rows + 1) (bucket + 1) (room size extra (bucket + 1)) := by
  unfold HasRoom room at *
  split <;> omega

theorem HasRoom.take (h : HasRoom size extra (rows + 1) bucket (remaining + 1)) :
    HasRoom size extra rows bucket remaining := by
  unfold HasRoom at *
  omega

theorem hasRoom_division (n buckets : Nat) :
    HasRoom (n / buckets) (n % buckets) n 1 (room (n / buckets) (n % buckets) 1) := by
  have hdivision := Nat.div_add_mod n buckets
  unfold HasRoom room
  rcases Nat.eq_zero_or_pos (n / buckets) with hsize | hsize
  · rw [hsize, Nat.mul_zero] at hdivision
    right
    split <;> omega
  · exact .inl hsize

end HasRoom

/-- Deals rows into buckets: `remaining` more go into the current bucket, and a bucket that takes no
more gives way to the next one. Buckets without room would go on giving way for ever. -/
def deal (size extra : Nat) :
    (rows bucket remaining : Nat) → HasRoom size extra rows bucket remaining → List Nat
  | 0, _, _, _ => []
  | rows + 1, bucket, 0, h =>
    deal size extra (rows + 1) (bucket + 1) (room size extra (bucket + 1)) h.next.2
  | rows + 1, bucket, remaining + 1, h => bucket :: deal size extra rows bucket remaining h.take
termination_by rows _ remaining => (rows, 1 - remaining)
decreasing_by
  -- the next bucket has room, so it does not give way at once
  · have hroom := h.next.1
    exact Prod.Lex.right _ (by omega)
  · exact Prod.Lex.left _ _ (Nat.lt_succ_self rows)

/-- The bucket of each of `n` rows, from the first bucket on; larger buckets come first. -/
def bucketsOf (n buckets : Nat) : List Nat :=
  deal (n / buckets) (n % buckets) n 1 (room (n / buckets) (n % buckets) 1)
    (hasRoom_division n buckets)

/-- Counts the peer groups up to each position, after `groups` of them of which the last starts
at `first`. -/
def denseRanks (groups : Nat) (first : Int) : List Span → List Nat
  | [] => []
  | p :: rest =>
    if p.first = first then groups :: denseRanks groups first rest
    else (groups + 1) :: denseRanks (groups + 1) p.first rest

/-- The value `step` rows away from each row, or the fallback beyond the partition. -/
def shift (values : List Value) (step : Int) (fallback : Value) : List Value :=
  (List.range values.length).map fun (i : Nat) =>
    let j := (i : Int) + step
    if j < 0 then fallback else values[j.toNat]?.getD fallback

/-- The value at one end of a frame, null for an empty frame. -/
def atEnd (values : List Value) (last : Bool) (f : Span) : Value :=
  if f.first < f.stop then
    values[(if last then f.stop - 1 else f.first).toNat]?.getD .null
  else .null

def columnOf (schema : Schema) (name : String) (rows : List (List Value)) :
    Result (List Value) := do
  let i ← schema.indexOf name
  pure (rows.map fun row => Arrangement.valueAt row i)

def peersOf (schema : Schema) (orderBy : List OrderKey) (rows : List (List Value)) :
    Result (List Span) := do
  let keys ← rows.mapM (FrameExtent.orderValues schema orderBy)
  Peers.bounds keys

def evaluateRows (schema : Schema) (spec : WindowSpec) (frame : FrameSpec)
    (rows : List (List Value)) : Result (List Value) :=
  match spec.function with
  | .rowNumber => .ok ((List.range rows.length).map fun (i : Nat) => .int (i + 1 : Nat))
  | .rank => do
    let peers ← peersOf schema spec.orderBy rows
    pure (peers.map fun p => .int (p.first + 1))
  | .denseRank => do
    let peers ← peersOf schema spec.orderBy rows
    pure ((denseRanks 0 (-1) peers).map fun (n : Nat) => .int n)
  | .ntile buckets _ => .ok ((bucketsOf rows.length buckets).map fun (n : Nat) => .int n)
  | .lag column offset fallback => do
    let values ← columnOf schema column rows
    pure (shift values (-(offset : Int)) fallback)
  | .lead column offset fallback => do
    let values ← columnOf schema column rows
    pure (shift values offset fallback)
  | .firstValue column => do
    let values ← columnOf schema column rows
    let spans ← FrameExtent.spans schema spec.orderBy rows frame
    pure (spans.map (atEnd values false))
  | .lastValue column => do
    let values ← columnOf schema column rows
    let spans ← FrameExtent.spans schema spec.orderBy rows frame
    pure (spans.map (atEnd values true))
  | .aggregate kind column => do
    let values ← columnOf schema column rows
    let spans ← FrameExtent.spans schema spec.orderBy rows frame
    FrameAggregate.overFrames kind values spans
  | .countRows => do
    let spans ← FrameExtent.spans schema spec.orderBy rows frame
    FrameAggregate.overFrames .count (List.replicate rows.length (.bool true)) spans

/-- Puts values back at the positions they were computed for. -/
def scatter (n : Nat) (placed : List (Nat × Value)) : List Value :=
  (List.range n).map fun i =>
    (placed.lookup i).getD .null

/-- One value for each row of a relation, in row order. -/
def evaluate (r : Relation) (spec : WindowSpec) : Result (List Value) := do
  let frame ← validate r.schema spec
  let partitions ← Arrangement.positions r spec.partitionBy spec.orderBy
  let placed ← partitions.mapM fun p => do
    let values ← evaluateRows r.schema spec (frame.getD spec.defaultFrame)
      (Arrangement.rowsAt r p.positions)
    pure (p.positions.zip values)
  pure (scatter r.size placed.flatten)

def append (r : Relation) (spec : WindowSpec) : Result Relation := do
  if r.schema.contains spec.columnName then
    throw (.schema (.outputExists spec.columnName))
  let values ← evaluate r spec
  let type ← spec.function.outputType r.schema
  r.withColumn spec.columnName type values

end OrderedRelations.Window
