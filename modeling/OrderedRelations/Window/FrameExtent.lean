import OrderedRelations.Window.Coordinate
import OrderedRelations.Window.Span

/-!
# Extents of frames

The span of every position of an arranged partition. Row frames count positions. Range frames
without offsets reach to the ends of the peer group or of the partition; those with offsets
search the coordinates of the single order column, which ascend along the partition once those
of a descending key are negated. Nulls stand in one block and are peers only of each other.
-/

namespace OrderedRelations.FrameExtent

/-- The whole rows that an offset counts. -/
def rowCount : Offset → Int
  | .whole n => n
  | _ => 0

def firstRow (i : Int) : FrameBound → Int
  | .unboundedPreceding => 0
  | .preceding offset => i - rowCount offset
  | .following offset => i + rowCount offset
  | _ => i

def stopRow (n i : Int) : FrameBound → Int
  | .unboundedFollowing => n
  | .preceding offset => i - rowCount offset + 1
  | .following offset => i + rowCount offset + 1
  | _ => i + 1

/-- Moves a position into a partition of `n` rows. -/
def clamp (n i : Int) : Int := min (max i 0) n

def rowSpan (n : Nat) (frame : FrameSpec) (i : Nat) : Span :=
  ⟨clamp n (firstRow i frame.start), clamp n (stopRow n i frame.stop)⟩

def rowSpans (n : Nat) (frame : FrameSpec) : List Span := (List.range n).map (rowSpan n frame)

/-- A range frame without offsets, from the peers of a position. -/
def peerSpan (n : Nat) (frame : FrameSpec) (peers : Span) : Span :=
  ⟨if frame.start = .unboundedPreceding then 0 else peers.first,
    if frame.stop = .unboundedFollowing then n else peers.stop⟩

/-- The first index from `low` up to `high` whose element fails a test, found by halving; the
elements that pass must come first. -/
def partitionPoint {α : Type} (test : α → Bool) (xs : Array α) (low high : Nat) : Nat :=
  if low < high then
    let middle := (low + high) / 2
    match xs[middle]? with
    | some x =>
      if test x then partitionPoint test xs (middle + 1) high
      else partitionPoint test xs low middle
    | none => low
  else low
termination_by high - low

/-- How many of the ascending coordinates are less than a target. -/
def countBelow (coordinates : Array Quantity) (target : Quantity) : Nat :=
  partitionPoint (fun c => c.less target) coordinates 0 coordinates.size

/-- How many of the ascending coordinates are not greater than a target. -/
def countThrough (coordinates : Array Quantity) (target : Quantity) : Nat :=
  partitionPoint (fun c => !target.less c) coordinates 0 coordinates.size

/-- An arranged partition as range frames with offsets see it: the order values, the number of
nulls in front, the signed coordinates of the values that are not null, and the peers. -/
structure RangeView where
  type : ColumnType
  values : List Value
  base : Nat
  coordinates : Array Quantity
  peers : List Span

/-- The point that lies an offset away from a coordinate. -/
def target (type : ColumnType) (c : Quantity) (backward : Bool) (offset : Offset) :
    Result Quantity := do
  let distance ← orElse .mistyped (offset.inUnitsOf type).quantity?
  orElse .overflow (if backward then c.sub? distance else c.add? distance)

/-- The coordinate of a position, unless its value is null. -/
def RangeView.coordinate? (v : RangeView) (i : Nat) : Option Quantity :=
  if (Arrangement.valueAt v.values i).isNull then none else v.coordinates[i - v.base]?

def RangeView.first (v : RangeView) (i : Nat) (peers : Span) (bound : FrameBound) :
    Result Int :=
  match bound, v.coordinate? i with
  | .unboundedPreceding, _ => .ok 0
  | .preceding offset, some c =>
    (target v.type c true offset).map fun t => (v.base + countBelow v.coordinates t : Nat)
  | .following offset, some c =>
    (target v.type c false offset).map fun t => (v.base + countBelow v.coordinates t : Nat)
  | _, _ => .ok peers.first

def RangeView.stop (v : RangeView) (i : Nat) (peers : Span) (bound : FrameBound) :
    Result Int :=
  match bound, v.coordinate? i with
  | .unboundedFollowing, _ => .ok v.values.length
  | .preceding offset, some c =>
    (target v.type c true offset).map fun t => (v.base + countThrough v.coordinates t : Nat)
  | .following offset, some c =>
    (target v.type c false offset).map fun t => (v.base + countThrough v.coordinates t : Nat)
  | _, _ => .ok peers.stop

def RangeView.span (v : RangeView) (frame : FrameSpec) (i : Nat) (peers : Span) :
    Result Span := do
  let first ← v.first i peers frame.start
  let stop ← v.stop i peers frame.stop
  pure ⟨first, stop⟩

/-- Coordinates of the values that are not null, negated under a descending key. -/
def signedCoordinates (type : ColumnType) (descending : Bool) (values : List Value) :
    Result (List Quantity) :=
  (values.filter fun v => !v.isNull).mapM fun v => do
    let c ← v.quantityAt type
    pure (if descending then c.neg else c)

def offsetSpans (k : OrderKey) (type : ColumnType) (values : List Value) (peers : List Span)
    (frame : FrameSpec) : Result (List Span) := do
  let coordinates ← signedCoordinates type k.descending values
  let base := (values.takeWhile Value.isNull).length
  let view : RangeView := ⟨type, values, base, coordinates.toArray, peers⟩
  (peers.zipIdx).mapM fun (p, i) => view.span frame i p

def orderValues (schema : Schema) (orderBy : List OrderKey) (row : List Value) :
    Result (List Value) :=
  orderBy.mapM fun k => do
    let i ← schema.indexOf k.column
    pure (Arrangement.valueAt row i)

/-- The spans of a frame over the rows of an arranged partition. -/
def spans (schema : Schema) (orderBy : List OrderKey) (rows : List (List Value))
    (frame : FrameSpec) : Result (List Span) :=
  match frame.unit with
  | .rows => .ok (rowSpans rows.length frame)
  | .range => do
    let keys ← rows.mapM (orderValues schema orderBy)
    let peers ← Peers.bounds keys
    match frame.hasOffsets, orderBy with
    | true, k :: _ =>
      let type ← schema.typeOf k.column
      offsetSpans k type (keys.map fun key => Arrangement.valueAt key 0) peers frame
    | _, _ => pure (peers.map (peerSpan rows.length frame))

end OrderedRelations.FrameExtent
