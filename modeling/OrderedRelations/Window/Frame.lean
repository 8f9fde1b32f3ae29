import OrderedRelations.Failure

/-!
# Window frames

A frame has a unit, a start and an end. `FrameBound.make` and `FrameSpec.make` refuse bounds
whose offset is missing, superfluous or negative, frames that end before they start, and row
frames that do not count whole rows.
-/

namespace OrderedRelations

inductive FrameBound where
  | unboundedPreceding
  | preceding (offset : Offset)
  | currentRow
  | following (offset : Offset)
  | unboundedFollowing
  deriving DecidableEq

namespace FrameBound

def kind : FrameBound → BoundKind
  | unboundedPreceding => .unboundedPreceding
  | preceding _ => .preceding
  | currentRow => .currentRow
  | following _ => .following
  | unboundedFollowing => .unboundedFollowing

def offset? : FrameBound → Option Offset
  | preceding offset => some offset
  | following offset => some offset
  | _ => none

/-- An offset that does not reach backwards. -/
def checkOffset (offset : Offset) : Result Offset :=
  match offset.magnitude? with
  | none => .error .overflow
  | some size =>
    if (Quantity.real size).less (.whole 0) then .error (.frame (.negativeOffset offset))
    else .ok offset

def make (kind : BoundKind) (offset : Option Offset) : Result FrameBound :=
  match kind, offset with
  | .preceding, none => .error (.frame (.offsetRequired kind))
  | .following, none => .error (.frame (.offsetRequired kind))
  | .preceding, some offset => (checkOffset offset).map preceding
  | .following, some offset => (checkOffset offset).map following
  | kind, some _ => .error (.frame (.offsetForbidden kind))
  | .unboundedPreceding, none => .ok unboundedPreceding
  | .currentRow, none => .ok currentRow
  | .unboundedFollowing, none => .ok unboundedFollowing

/-- The place of a bound relative to the current row: a rank, then a signed offset. -/
def position? : FrameBound → Option (Int × Binary64)
  | unboundedPreceding => some (0, .zero)
  | preceding offset => offset.magnitude?.map fun size => (1, size.neg)
  | currentRow => some (1, .zero)
  | following offset => offset.magnitude?.map fun size => (1, size)
  | unboundedFollowing => some (2, .zero)

def isAfter (a b : Int × Binary64) : Bool :=
  decide (b.1 < a.1) ||
    (decide (a.1 = b.1) && (Quantity.real b.2).less (.real a.2))

end FrameBound

structure FrameSpec where
  unit : FrameUnit
  start : FrameBound
  stop : FrameBound
  deriving DecidableEq

namespace FrameSpec

def hasOffsets (f : FrameSpec) : Bool := f.start.offset?.isSome || f.stop.offset?.isSome

def checkRows (bound : FrameBound) : Result Unit :=
  match bound.offset? with
  | some (.real x) => .error (.frame (.rowsOffset (.real x)))
  | some (.duration m) => .error (.frame (.rowsOffset (.duration m)))
  | _ => .ok ()

def make (unit : FrameUnit) (start stop : FrameBound) : Result FrameSpec :=
  if start = .unboundedFollowing then .error (.frame .startsAtEnd)
  else if stop = .unboundedPreceding then .error (.frame .endsAtStart)
  else do
    let p ← orElse .overflow start.position?
    let q ← orElse .overflow stop.position?
    if FrameBound.isAfter p q then
      throw (.frame (.startAfterEnd start.kind stop.kind start.offset? stop.offset?))
    if unit = .rows then
      checkRows start
      checkRows stop
    pure ⟨unit, start, stop⟩

/-- Rows from the start of the partition up to the current one. -/
def running : FrameSpec := ⟨.rows, .unboundedPreceding, .currentRow⟩

end FrameSpec
end OrderedRelations
