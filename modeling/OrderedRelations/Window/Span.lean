import OrderedRelations.Window.Arrangement

/-!
# Spans and peers

A span is a half-open stretch of positions of an arranged partition. Peers are the rows of one
maximal run of equal order values; nulls are peers of each other, and moments are compared in
UTC.
-/

namespace OrderedRelations

/-- The positions from `first` up to, but not including, `stop`. -/
structure Span where
  first : Int
  stop : Int
  deriving DecidableEq

namespace Peers

/-- Lengths of the maximal runs of a list whose first run has `length` elements already, each
equal to `first`. -/
def runLengthsFrom (first : List Value) (length : Nat) : List (List Value) → List Nat
  | [] => [length]
  | key :: rest =>
    if Value.sameKeys key first then runLengthsFrom first (length + 1) rest
    else length :: runLengthsFrom key 1 rest

def runLengths : List (List Value) → List Nat
  | [] => []
  | key :: rest => runLengthsFrom key 1 rest

/-- One span for each element of runs that start at `first`. -/
def spansOfRuns (first : Nat) : List Nat → List Span
  | [] => []
  | length :: rest =>
    List.replicate length ⟨first, (first + length : Nat)⟩ ++ spansOfRuns (first + length) rest

/-- The peers of each position, given the order values in comparable form. -/
def spans (keys : List (List Value)) : List Span := spansOfRuns 0 (runLengths keys)

def comparableKeys (keys : List (List Value)) : Result (List (List Value)) :=
  keys.mapM fun key => key.mapM fun v => orElse .overflow v.comparable?

/-- The peers of each position, given the order values as they are. -/
def bounds (keys : List (List Value)) : Result (List Span) := (comparableKeys keys).map spans

end Peers
end OrderedRelations
