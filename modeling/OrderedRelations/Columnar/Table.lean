import OrderedRelations.Columnar.Selection
import OrderedRelations.Columnar.Storage

/-!
# Columnar tables

Relations as columns of stored values, and back. Row order is kept. A table without columns has
no rows. What is not a number is a value of its own each time it is read.
-/

namespace OrderedRelations

/-- A column with its values in the form in which its type holds them. -/
structure TableColumn where
  name : String
  type : DataType
  cells : List Value

structure Table where
  columns : List TableColumn

namespace Table

def names (t : Table) : List String := t.columns.map TableColumn.name

/-- Names with the spellings of the storage types. -/
def types (t : Table) : List (String × String) := t.columns.map fun c => (c.name, c.type.text)

/-- The name of the column at a position, where it has none. -/
def nameAt (position : Nat) (name : String) : String :=
  if name = "" then "column_" ++ toString position else name

/-- Puts columns together; all must have one length, and names must differ. -/
def ofStored (columns : List TableColumn) : Result Table :=
  let lengths := columns.map fun c => c.cells.length
  if (lengths.all fun n => decide (n = lengths.headD 0)) &&
      decide ((columns.map TableColumn.name).Nodup) then .ok ⟨columns⟩
  else .error .columnar

def ofColumns (columns : List (String × DataType × List Value)) : Result Table := do
  let stored ← (columns.zipIdx).mapM fun ((name, type, values), i) => do
    let (type, cells) ← type.storeAll values
    pure (⟨nameAt i name, type, cells⟩ : TableColumn)
  ofStored stored

def ofRelation (r : Relation) : Result Table := do
  let columns ← (r.schema.columns.zipIdx).mapM fun (c, i) => do
    let type := DataType.ofColumnType c.type
    let cells ← (r.columnAt i).mapM type.store
    pure (⟨c.name, type, cells⟩ : TableColumn)
  pure ⟨columns⟩

def find? (t : Table) (name : String) : Option TableColumn :=
  t.columns.find? fun c => decide (c.name = name)

/-- The columns that some names stand for, each once only. -/
def select (t : Table) (wanted : List String) : Result Table := do
  let chosen ← Selection.distinct t.names wanted
  pure ⟨chosen.filterMap t.find?⟩

def rowsOf (columns : List (List Value)) : List (List Value) :=
  (List.range (columns.headD []).length).map fun i =>
    columns.map fun values => values[i]?.getD .null

def rows (t : Table) : List (List Value) := rowsOf (t.columns.map TableColumn.cells)

/-- Gives what is not a number payloads of its own, cell by cell. -/
def renewPayloads (first width : Nat) (rows : List (List Value)) : List (List Value) :=
  (rows.zipIdx).map fun (row, i) =>
    (row.zipIdx).map fun (v, j) => v.withPayload (first + i * width + j)

/-- The rows as they are read, with payloads from the given one on. -/
def readRows (t : Table) (payload : Nat) : Result (List (List Value)) := do
  let columns ← t.columns.mapM fun c => c.cells.mapM c.type.read
  pure (renewPayloads payload t.columns.length (rowsOf columns))

/-- Sorts columns into those that a relation can have and descriptions of the others. -/
def sortColumns : List TableColumn → Result (List Column × List String)
  | [] => .ok ([], [])
  | c :: rest => do
    match c.type.columnType? with
    | some type =>
      let column ← Column.make (.text c.name) type
      let (supported, others) ← sortColumns rest
      pure (column :: supported, others)
    | none =>
      let (supported, others) ← sortColumns rest
      pure (supported, (c.name ++ ": " ++ c.type.text) :: others)

/-- The relation of a table. Columns of unsupported types are refused when `strict` holds, and
dropped otherwise. The columns of the relation are selected by their names, so a name that stands
for others brings their values. -/
def toRelation (t : Table) (strict : Bool) (payload : Nat) : Result Relation := do
  let (supported, others) ← sortColumns t.columns
  if strict && !others.isEmpty then throw (.unsupportedTypes others)
  let schema ← Schema.ofColumns supported
  let selected ← t.select schema.names
  let rows ← selected.readRows payload
  Relation.ofRows schema rows

end Table
end OrderedRelations
