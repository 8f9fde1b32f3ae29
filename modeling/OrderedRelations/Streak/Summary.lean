import OrderedRelations.Columnar.Table

/-!
# Summaries of streaks

One row for each partition and streak id, in order of first appearance: the partition values,
the id, the number of rows, and the least and greatest value of an order column. Rows without
an id are left out. Values are grouped and compared as a columnar table stores them, so moments
are in UTC, and one that no calendar has fails only when it is part of the summary.
-/

namespace OrderedRelations.Streak

def lengthColumn : String := "streak_length"

def startColumn : String := "streak_start"

def endColumn : String := "streak_end"

/-- Equality of stored keys; what is not a number forms one key. -/
def sameStored : List Value → List Value → Bool
  | [], [] => true
  | a :: as, b :: bs => (a.same b || (a.isNaN && b.isNaN)) && sameStored as bs
  | _, _ => false

/-- Rows that share a key. -/
structure Group where
  key : List Value
  rows : List (List Value)

/-- Adds a row to the group of its key, a new one at the end if there is none. -/
def insertRow (key row : List Value) : List Group → List Group
  | [] => [⟨key, [row]⟩]
  | g :: rest =>
    if sameStored g.key key then ⟨g.key, g.rows ++ [row]⟩ :: rest
    else g :: insertRow key row rest

def groups (key : List Value → List Value) (rows : List (List Value)) : List Group :=
  rows.foldl (fun found row => insertRow (key row) row found) []

/-- The values that count for an extreme: neither null nor, unless there is nothing else, not a
number. -/
def counted (values : List Value) : List Value :=
  let present := values.filter fun v => !v.isNull
  let numbers := present.filter fun v => !v.isNaN
  if numbers.isEmpty then present else numbers

/-- The least, or the greatest, of some values; null when there are none. -/
def extremeOf (maximum : Bool) (values : List Value) : Value :=
  match counted values with
  | [] => .null
  | v :: rest => rest.foldl (fun best w =>
      let better := if maximum then best.less? w else w.less? best
      if better.getD false then w else best) v

/-- Finds the first of some names that is no column. -/
def requireColumns (schema : Schema) (names : List String) : Result Unit :=
  match names.find? fun name => !schema.contains name with
  | some name => .error (.schema (.unknownColumn name schema.names))
  | none => .ok ()

/-- The values of a row at some places. -/
def valuesAt (places : List Nat) (row : List Value) : List Value :=
  places.map fun i => row[i]?.getD .null

/-- The place of a column in a table. -/
def placeOf (t : Table) (name : String) : Result Nat :=
  orElse .columnar (t.columns.findIdx? fun c => decide (c.name = name))

/-- The rows of a table whose one column that a name stands for is not null. -/
def rowsWith (t : Table) (name : String) : Result (List (List Value)) := do
  let chosen ← Selection.columnsFor t.names [] name
  match chosen with
  | [only] =>
    let place ← placeOf t only
    pure (t.rows.filter fun row => !(row[place]?.getD .null).isNull)
  | _ => throw .columnar

/-- A key column of the summary: the value of each group at one place of its key. -/
def keyColumn (t : Table) (found : List Group) (place : Nat) (name : String) :
    Result TableColumn := do
  let c ← orElse .columnar (t.find? name)
  pure ⟨name, c.type, found.map fun g => g.key[place]?.getD .null⟩

/-- A column of extremes of the values that the groups have at one column of the table. -/
def extremeColumn (t : Table) (found : List Group) (maximum : Bool) (name : String) :
    Result TableColumn := do
  let c ← orElse .columnar (t.find? name)
  let place ← placeOf t name
  pure ⟨if maximum then endColumn else startColumn, c.type,
    found.map fun g => extremeOf maximum (g.rows.map fun row => row[place]?.getD .null)⟩

/-- The table of a summary. An order column that stands for several brings as many columns of
one name, which no table has; keys are not among the columns that it stands for. -/
def summaryTable (t : Table) (keys : List String) (groupColumn : String)
    (orderColumn : Option String) : Result Table := do
  let rows ← rowsWith t groupColumn
  let keys ← Selection.distinct t.names keys
  let places ← keys.mapM (placeOf t)
  let measured ← Selection.columns t.names keys orderColumn.toList
  let found := groups (valuesAt places) rows
  let keyColumns ← (keys.zipIdx).mapM fun (name, i) => keyColumn t found i name
  let lengths : TableColumn :=
    ⟨lengthColumn, .signed 64, found.map fun g => .int g.rows.length⟩
  let starts ← measured.mapM (extremeColumn t found false)
  let ends ← measured.mapM (extremeColumn t found true)
  Table.ofStored (keyColumns ++ lengths :: (starts ++ ends))

/-- Summarizes the streaks of a relation. An empty order column is no column, but not looked
for among the columns either. -/
def summarize (r : Relation) (partitionBy : List String) (groupColumn : String)
    (orderColumn : Option String) (payload : Nat) : Result Relation := do
  let keys := partitionBy ++ [groupColumn]
  requireColumns r.schema (keys ++ (orderColumn.filter fun name => decide (name ≠ "")).toList)
  let table ← Table.ofRelation r
  let summary ← summaryTable table keys groupColumn orderColumn
  summary.toRelation true payload

end OrderedRelations.Streak
