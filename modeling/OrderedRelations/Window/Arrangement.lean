import OrderedRelations.Window.Spec

/-!
# Arrangements

An arrangement splits the row positions of a relation into partitions and sorts each of them.
Partitions are listed by the first appearance of their key, and a key is spelled as its first
row has it. Sorting makes one stable pass for each order key, the last key first, so rows that
tie keep their order of arrival.
-/

namespace OrderedRelations

structure Partition where
  key : List Value
  positions : List Nat

namespace Arrangement

/-- Finds the first column that the schema lacks, partition columns before order columns. -/
def checkColumns (schema : Schema) (partitionBy : List String) (orderBy : List OrderKey) :
    Result Unit :=
  match partitionBy.find? fun name => !schema.contains name with
  | some name => .error (.key (.partitionColumn name schema.names))
  | none =>
    match orderBy.find? fun k => !schema.contains k.column with
    | some k => .error (.key (.orderColumn k.column schema.names))
    | none => .ok ()

/-- Adds a position to the partition of its key, a new one at the end if there is none. -/
def insert (key : List Value) (position : Nat) : List Partition → List Partition
  | [] => [⟨key, [position]⟩]
  | p :: rest =>
    if Value.sameKeys p.key key then ⟨p.key, p.positions ++ [position]⟩ :: rest
    else p :: insert key position rest

/-- Partitions of keys that stand at the positions from `next` on. -/
def partitionFrom (partitions : List Partition) (next : Nat) :
    List (List Value) → List Partition
  | [] => partitions
  | key :: rest => partitionFrom (insert key next partitions) (next + 1) rest

def partitions (keys : List (List Value)) : List Partition := partitionFrom [] 0 keys

/-- The value at a position; there is one at each position of a column. -/
def valueAt (values : List Value) (position : Nat) : Value := values[position]?.getD .null

/-- One stable pass: sorts positions by the values they have in a column of comparable
values. Under a descending key the list is sorted backwards, so that ties keep their order. -/
def sortPass (k : OrderKey) (values : List Value) (positions : List Nat) : List Nat :=
  let ordered := fun i j => !k.sortsBefore (valueAt values j) (valueAt values i)
  if k.descending then (positions.reverse.mergeSort ordered).reverse
  else positions.mergeSort ordered

/-- The passes of all keys, the last key first. -/
def sortPasses (keyed : List (OrderKey × List Value)) (positions : List Nat) : List Nat :=
  keyed.foldr (fun (k, values) sorted => sortPass k values sorted) positions

def comparableColumn (r : Relation) (name : String) : Result (List Value) := do
  let values ← r.column name
  values.mapM fun v => orElse .overflow v.comparable?

/-- The partitions of a relation with their positions in order. -/
def positions (r : Relation) (partitionBy : List String) (orderBy : List OrderKey) :
    Result (List Partition) := do
  checkColumns r.schema partitionBy orderBy
  let places ← partitionBy.mapM r.schema.indexOf
  let keyed ← orderBy.mapM fun k => do
    let values ← comparableColumn r k.column
    pure (k, values)
  let keys := r.rows.map fun row => places.map (valueAt row)
  pure ((partitions keys).map fun p => ⟨p.key, sortPasses keyed p.positions⟩)

def rowsAt (r : Relation) (positions : List Nat) : List (List Value) :=
  positions.filterMap (r.rows[·]?)

def slice (r : Relation) (p : Partition) : Relation := ⟨r.schema, rowsAt r p.positions⟩

end Arrangement
end OrderedRelations
