import OrderedRelations.Window.Span

/-!
# Accumulators

Running aggregates that values enter and leave. Sums are exact rationals rounded once when they
are read, with infinities and not-a-numbers counted apart. Extremes keep the positions whose
value no later one in the window has overtaken, so the first of them is the extreme.
-/

namespace OrderedRelations

/-- The state of a sum: the exact total of finite values, and how many values, doubles,
not-a-numbers and infinities of either sign are inside. -/
structure RunningSum where
  total : Rat
  values : Int
  floats : Int
  nans : Int
  positives : Int
  negatives : Int
  deriving DecidableEq

namespace RunningSum

def empty : RunningSum := ⟨0, 0, 0, 0, 0, 0⟩

def applyFloat (s : RunningSum) (sign : Int) : Binary64 → RunningSum
  | .nan _ => { s with floats := s.floats + sign, nans := s.nans + sign }
  | .infinity false => { s with floats := s.floats + sign, positives := s.positives + sign }
  | .infinity true => { s with floats := s.floats + sign, negatives := s.negatives + sign }
  | .negativeZero => { s with floats := s.floats + sign }
  | .number q => { s with floats := s.floats + sign, total := s.total + mkRat sign 1 * q }

/-- Counts a value in with the sign 1, out with the sign -1. -/
def apply (s : RunningSum) (sign : Int) : Value → Result RunningSum
  | .null => .ok s
  | .bool b =>
    .ok { s with total := s.total + mkRat (sign * if b then 1 else 0) 1, values := s.values + sign }
  | .int n => .ok { s with total := s.total + mkRat (sign * n) 1, values := s.values + sign }
  | .float x => let t := s.applyFloat sign x; .ok { t with values := t.values + sign }
  | _ => .error .mistyped

/-- The answer that values without a finite sum give. -/
def special? (s : RunningSum) : Option Binary64 :=
  if s.nans ≠ 0 ∨ (s.positives ≠ 0 ∧ s.negatives ≠ 0) then some .undefined
  else if s.positives ≠ 0 then some (.infinity false)
  else if s.negatives ≠ 0 then some (.infinity true)
  else none

def truncate (q : Rat) : Int := Int.tdiv q.num q.den

/-- Null for no values, a whole number when no double is inside, and else the exact total
rounded once. -/
def sum (s : RunningSum) : Result Value :=
  if s.values = 0 then .ok .null
  else if s.floats = 0 then .ok (.int (truncate s.total))
  else match s.special? with
    | some x => .ok (.float x)
    | none => (orElse .overflow (Binary64.ofRat? s.total)).map .float

def mean (s : RunningSum) : Result Value :=
  if s.values = 0 then .ok .null
  else match (if s.floats = 0 then none else s.special?) with
    | some x => .ok (.float x)
    | none => (orElse .overflow (Binary64.ofRat? (s.total / mkRat s.values 1))).map .float

end RunningSum

structure Entry where
  position : Int
  value : Value

/-- The entries that may still become the extreme, the current extreme first. -/
structure RunningExtreme where
  maximum : Bool
  window : List Entry

namespace RunningExtreme

/-- Whether a later value leaves an earlier one no chance. -/
def overtakes (maximum : Bool) (later earlier : Value) : Result Bool := do
  let later ← orElse .overflow later.comparable?
  let earlier ← orElse .overflow earlier.comparable?
  orElse .mistyped (if maximum then earlier.atMost? later else later.atMost? earlier)

/-- Drops the entries in front that a value overtakes; the latest entry stands in front. -/
def dropOvertaken (maximum : Bool) (v : Value) : List Entry → Result (List Entry)
  | [] => .ok []
  | e :: rest => do
    let b ← overtakes maximum v e.value
    if b then dropOvertaken maximum v rest else pure (e :: rest)

def add (s : RunningExtreme) (position : Int) (v : Value) : Result RunningExtreme :=
  if v.isNull then .ok s
  else do
    let kept ← dropOvertaken s.maximum v s.window.reverse
    pure { s with window := (⟨position, v⟩ :: kept).reverse }

/-- Removes a position; it can only be the first. -/
def remove (s : RunningExtreme) (position : Int) : RunningExtreme :=
  match s.window with
  | e :: rest => if e.position = position then { s with window := rest } else s
  | [] => s

def extreme (s : RunningExtreme) : Value :=
  match s.window with
  | e :: _ => e.value
  | [] => .null

end RunningExtreme

inductive Accumulator where
  | sum (s : RunningSum)
  | mean (s : RunningSum)
  | count (n : Int)
  | extreme (s : RunningExtreme)
  | undefined

namespace Accumulator

def fresh : AggregateKind → Accumulator
  | .sum => sum .empty
  | .count => count 0
  | .avg => mean .empty
  | .min => extreme ⟨false, []⟩
  | .max => extreme ⟨true, []⟩

/-- The accumulator of a window function, which must be an aggregate. -/
def ofFunction : FunctionKind → Result Accumulator
  | .aggregate kind => .ok (fresh kind)
  | kind => .error (.text (.notAnAggregate kind))

def add (position : Int) (v : Value) : Accumulator → Result Accumulator
  | sum s => (s.apply 1 v).map sum
  | mean s => (s.apply 1 v).map mean
  | count n => .ok (count (if v.isNull then n else n + 1))
  | extreme s => (s.add position v).map extreme
  | undefined => .error .unimplemented

def remove (position : Int) (v : Value) : Accumulator → Result Accumulator
  | sum s => (s.apply (-1) v).map sum
  | mean s => (s.apply (-1) v).map mean
  | count n => .ok (count (if v.isNull then n else n - 1))
  | extreme s => .ok (extreme (s.remove position))
  | undefined => .error .unimplemented

def result : Accumulator → Result Value
  | sum s => s.sum
  | mean s => s.mean
  | count n => .ok (.int n)
  | extreme s => .ok s.extreme
  | undefined => .error .unimplemented

end Accumulator
end OrderedRelations
