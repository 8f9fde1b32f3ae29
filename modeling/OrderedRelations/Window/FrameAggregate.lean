import OrderedRelations.Window.Accumulator

/-!
# Aggregates over frames

`slide` drives one accumulator over frames whose two ends never move back: each value enters
and leaves at most once. `recompute` starts afresh for every frame and takes any frames. A
frame that stops before it starts is empty.
-/

namespace OrderedRelations.FrameAggregate

/-- Where a frame stops, at its start at the earliest. -/
def stop (f : Span) : Int := max f.first f.stop

/-- Whether both ends never move back, from zero on. -/
def isMonotone (first last : Int) : List Span → Bool
  | [] => true
  | f :: rest =>
    decide (first ≤ f.first) && decide (last ≤ stop f) && isMonotone f.first (stop f) rest

/-- Lets as many values enter as asked for, from a position on. -/
def enter (values : List Value) : (count : Nat) → (next : Nat) → Accumulator →
    Result Accumulator
  | 0, _, acc => .ok acc
  | count + 1, next, acc => do
    let v ← orElse .outOfRange values[next]?
    let acc ← acc.add next v
    enter values count (next + 1) acc

/-- Lets as many values leave as asked for, from a position on. -/
def leave (values : List Value) : (count : Nat) → (next : Nat) → Accumulator →
    Result Accumulator
  | 0, _, acc => .ok acc
  | count + 1, next, acc => do
    let v ← orElse .outOfRange values[next]?
    let acc ← acc.remove next v
    leave values count (next + 1) acc

/-- Slides over the frames with `removed` values gone again out of `added`. -/
def slideFrom (values : List Value) (added removed : Nat) (acc : Accumulator) :
    List Span → Result (List Value)
  | [] => .ok []
  | f :: rest =>
    if f.first < removed ∨ stop f < added then .error (.text .framesGoBack)
    else do
      let acc ← enter values ((stop f).toNat - added) added acc
      let acc ← leave values (f.first.toNat - removed) removed acc
      let v ← acc.result
      let rest ← slideFrom values (stop f).toNat f.first.toNat acc rest
      pure (v :: rest)

/-- One result for each frame, from a single accumulator. -/
def slide (values : List Value) (frames : List Span) (acc : Accumulator) :
    Result (List Value) :=
  slideFrom values 0 0 acc frames

/-- The value at an index; negative indices count from the end. -/
def valueAt (values : List Value) (i : Int) : Result Value :=
  let j := if i < 0 then i + values.length else i
  if j < 0 then .error .outOfRange else orElse .outOfRange values[j.toNat]?

/-- Adds as many values as asked for, from an index on. -/
def addFrom (values : List Value) : (count : Nat) → (next : Int) → Accumulator →
    Result Accumulator
  | 0, _, acc => .ok acc
  | count + 1, next, acc => do
    let v ← valueAt values next
    let acc ← acc.add next v
    addFrom values count (next + 1) acc

/-- The result of one frame from scratch. -/
def ofFrame (values : List Value) (acc : Accumulator) (f : Span) : Result Value := do
  let acc ← addFrom values (stop f - f.first).toNat f.first acc
  acc.result

def recompute (values : List Value) (frames : List Span) (fresh : Accumulator) :
    Result (List Value) :=
  frames.mapM (ofFrame values fresh)

/-- One result for each frame by a window function, which must be an aggregate as soon as there
is a frame. -/
def recomputeBy (kind : FunctionKind) (values : List Value) (frames : List Span) :
    Result (List Value) :=
  frames.mapM fun f => do
    let acc ← Accumulator.ofFunction kind
    ofFrame values acc f

def overFrames (kind : AggregateKind) (values : List Value) (frames : List Span) :
    Result (List Value) :=
  if isMonotone 0 0 frames then slide values frames (Accumulator.fresh kind)
  else recompute values frames (Accumulator.fresh kind)

end OrderedRelations.FrameAggregate
