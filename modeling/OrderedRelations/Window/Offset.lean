import OrderedRelations.Value.Spelling

/-!
# Offsets

The distance that a frame bound, a streak step or a gap tolerance measures: a number, or a
duration. A number beside dates or moments means days.
-/

namespace OrderedRelations

inductive Offset where
  | whole (n : Int)
  | real (x : Binary64)
  | duration (microseconds : Int)
  deriving DecidableEq

namespace Offset

def toValue : Offset → Value
  | whole n => .int n
  | real x => .float x
  | duration m => .duration m

def literal (o : Offset) : String := o.toValue.literal

/-- The size of an offset as a double, durations in days; nothing where a whole number is out
of range. -/
def magnitude? : Offset → Option Binary64
  | whole n => Binary64.ofInt? n
  | real x => some x
  | duration m => some (Duration.inDays m)

end Offset
end OrderedRelations
