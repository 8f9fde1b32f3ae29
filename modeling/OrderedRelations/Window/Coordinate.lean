import OrderedRelations.Window.Spec

/-!
# Coordinates

Range frames and streaks place values on a number line: whole days for dates, microseconds from
1970 in UTC for moments, and numbers where they are. Offsets are measured in the same units.
-/

namespace OrderedRelations

/-- The place of a value of a column type on its number line; values of other types stay as
they are. -/
def Value.coordinate (type : ColumnType) (v : Value) : Result Value :=
  match type, v with
  | .date, .date d => .ok (.int d.ordinal)
  | .date, .datetime t => .ok (.int t.date.ordinal)
  | .date, _ => .error .mistyped
  | .datetime, .datetime t => (orElse .overflow t.utc?).map fun u => .int u.sinceEpoch
  | .datetime, _ => .error .mistyped
  | _, v => .ok v

def Value.quantityAt (type : ColumnType) (v : Value) : Result Quantity := do
  let place ← v.coordinate type
  orElse .mistyped place.quantity?

namespace Offset

/-- An offset in the units of a column type. A duration keeps its kind beside numbers. -/
def inUnitsOf (type : ColumnType) (offset : Offset) : Offset :=
  match type, offset with
  | .date, .duration m => .real (Binary64.ofRat (mkRat m dayMicroseconds))
  | .datetime, .whole n => .whole (n * dayMicroseconds)
  | .datetime, .real x => .real (x.mul (Binary64.number (mkRat dayMicroseconds 1)))
  | .datetime, .duration m => .whole m
  | _, offset => offset

/-- The offset that a value stands for; a boolean is zero or one. -/
def ofValue? : Value → Option Offset
  | .int n => some (.whole n)
  | .bool b => some (.whole (if b then 1 else 0))
  | .float x => some (.real x)
  | .duration m => some (.duration m)
  | _ => none

def quantity? : Offset → Option Quantity
  | whole n => some (.whole n)
  | real x => some (.real x)
  | duration _ => none

end Offset

/-- A value measured as an offset beside a column type. Beside moments it must stand for an
offset, and beside dates a duration becomes days; anything else stays as it is. -/
def Value.offsetUnits (type : ColumnType) (v : Value) : Result Value :=
  match type, v with
  | .datetime, v =>
    (orElse .mistyped (Offset.ofValue? v)).map fun o => (o.inUnitsOf .datetime).toValue
  | .date, .duration m => .ok ((Offset.duration m).inUnitsOf .date).toValue
  | _, v => .ok v
end OrderedRelations
