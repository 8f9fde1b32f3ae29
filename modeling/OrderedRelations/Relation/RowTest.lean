import OrderedRelations.Relation.Basic

/-!
# Tests of rows

A small language of conditions on a row. Orders are false on nulls; `and` and `or` stop at the
first operand that decides.
-/

namespace OrderedRelations

inductive Comparison where
  | eq
  | ne
  | lt
  | le
  | gt
  | ge
  deriving DecidableEq

inductive RowTest where
  | always (b : Bool)
  | truthy (column : String)
  | isNull (column : String)
  | compare (relation : Comparison) (column : String) (value : Value)
  | not (test : RowTest)
  | and (tests : List RowTest)
  | or (tests : List RowTest)
  deriving Inhabited

/-- Compares two values; an order between values without one is a mistyped test. -/
def Comparison.holds (relation : Comparison) (a b : Value) : Result Bool :=
  match relation with
  | eq => .ok (a.same b)
  | ne => .ok (!a.same b)
  | lt => if a.isNull then .ok false else orElse .mistyped (a.less? b)
  | le => if a.isNull then .ok false else orElse .mistyped (a.atMost? b)
  | gt => if a.isNull then .ok false else orElse .mistyped (b.less? a)
  | ge => if a.isNull then .ok false else orElse .mistyped (b.atMost? a)

namespace RowTest

mutual

def passes (row : Row) : RowTest → Result Bool
  | always b => .ok b
  | truthy column => (row.get column).map Value.truthy
  | isNull column => (row.get column).map Value.isNull
  | compare relation column value => do
    let v ← row.get column
    relation.holds v value
  | not test => (passes row test).map fun b => !b
  | and tests => passesAll row tests
  | or tests => passesAny row tests

def passesAll (row : Row) : List RowTest → Result Bool
  | [] => .ok true
  | test :: rest => do
    let b ← passes row test
    if b then passesAll row rest else pure false

def passesAny (row : Row) : List RowTest → Result Bool
  | [] => .ok false
  | test :: rest => do
    let b ← passes row test
    if b then pure true else passesAny row rest

end

end RowTest
end OrderedRelations
