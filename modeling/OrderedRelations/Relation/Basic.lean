import OrderedRelations.Relation.Schema

/-!
# Relations

A relation is a schema with rows in order. Cells enter through `Column.coerce`, which checks
them against the column's type and widens whole numbers in float columns. Every operation
builds a new relation.
-/

namespace OrderedRelations

/-- The type of a cell that a column may hold as it is. -/
def Value.conforms (type : ColumnType) : Value → Bool
  | .null => true
  | .bool _ => decide (type = .boolean)
  | .int _ => decide (type = .integer)
  | .float _ => decide (type = .float)
  | .text _ => decide (type = .text)
  | .date _ => decide (type = .date)
  | .datetime _ => decide (type = .datetime)
  | .time _ => false
  | .duration _ => false
  | .list _ => false
  | .record _ => false

/-- Checks a value against the type of a column; a whole number becomes a double in a float
column. -/
def Column.coerce (c : Column) (v : Value) : Result Value :=
  match c.type, v with
  | .float, .int n => (orElse .overflow (Binary64.ofInt? n)).map .float
  | type, v =>
    if v.conforms type then .ok v else .error (.schema (.nonconforming c.name type v))

/-- One row seen by itself: the values of a schema's columns in order. -/
structure Row where
  schema : Schema
  values : List Value

namespace Row

def length (r : Row) : Nat := r.values.length

def get (r : Row) (name : String) : Result Value := do
  let i ← r.schema.indexOf name
  orElse .outOfRange r.values[i]?

def fields (r : Row) : FieldList := r.schema.names.zip r.values

/-- Rows are equal when they name the same columns in the same order and hold equal values. -/
def same (r s : Row) : Bool :=
  decide (r.schema.names = s.schema.names) && Value.sameKeys r.values s.values

/-- Equality with a record: the same names in any order, each with an equal value. -/
def sameRecord (r : Row) : Value → Bool
  | .record fields =>
    decide (fields.length = r.fields.length) && r.fields.all fun (name, v) =>
      match fields.lookup name with
      | some w => v.sameKey w
      | none => false
  | _ => false

def literal (r : Row) : String :=
  "Row(" ++ ", ".intercalate (r.fields.map fun (name, v) => name ++ "=" ++ v.literal) ++ ")"

/-- Rows never change. -/
def set (_ : Row) (_ : String) : Result Unit := .error .immutableRow

end Row

structure Relation where
  schema : Schema
  rows : List (List Value)

namespace Relation

def names (r : Relation) : List String := r.schema.names

def size (r : Relation) : Nat := r.rows.length

/-- What every relation keeps: each row has one value for each column, and the value is null
or of the column's type. -/
def WellFormed (r : Relation) : Prop :=
  ∀ row ∈ r.rows, row.length = r.schema.width ∧
    ∀ cell ∈ row.zip r.schema.columns, cell.1.conforms cell.2.type = true

def row (r : Relation) (values : List Value) : Row := ⟨r.schema, values⟩

def coerceRow (schema : Schema) (values : List Value) : Result (List Value) :=
  if values.length = schema.width then
    (schema.columns.zip values).mapM fun (c, v) => c.coerce v
  else .error (.schema (.rowLength values.length schema.width))

def empty (schema : Schema) : Relation := ⟨schema, []⟩

def ofRows (schema : Schema) (rows : List (List Value)) : Result Relation := do
  let rows ← rows.mapM (coerceRow schema)
  pure ⟨schema, rows⟩

/-- Sorts names by code point and drops repetitions. -/
def sortNames (names : List String) : List String :=
  (names.eraseDups).mergeSort fun a b => !Text.less b a

def checkFields (schema : Schema) (fields : FieldList) : Result Unit :=
  let unknown := (fields.map Prod.fst).filter fun name => !schema.contains name
  if unknown.isEmpty then .ok () else .error (.schema (.unknownFields (sortNames unknown)))

/-- Builds a row from a record whose fields are exactly the columns, in any order. -/
def rowOfFields (schema : Schema) (fields : FieldList) : Result (List Value) := do
  checkFields schema fields
  let missing := schema.names.filter fun name => (fields.lookup name).isNone
  if missing.isEmpty then coerceRow schema (schema.names.filterMap (fields.lookup ·))
  else .error (.schema (.missingFields missing))

/-- Reads a row under another schema; a column that the row lacks is unknown to the row. -/
def rowOfRow (schema : Schema) (row : Row) : Result (List Value) := do
  checkFields schema row.fields
  let values ← schema.names.mapM row.get
  coerceRow schema values

def rowOfRecord (schema : Schema) : Value → Result (List Value)
  | .record fields => rowOfFields schema fields
  | v => .error (.schema (.notARecord v))

def ofRecords (schema : Schema) (records : List Value) : Result Relation := do
  let rows ← records.mapM (rowOfRecord schema)
  pure ⟨schema, rows⟩

def toFields (r : Relation) : List FieldList :=
  r.rows.map fun values => (r.row values).fields

def toRecords (r : Relation) : List Value := r.toFields.map .record

/-- The rows under another schema; rows of an equal schema are kept, others are read again. -/
def rebuild (r : Relation) (schema : Schema) : Result Relation :=
  if schema = r.schema then .ok r
  else do
    let rows ← r.rows.mapM fun values => rowOfRow schema (r.row values)
    pure ⟨schema, rows⟩

/-- What a relation may be built from: a row of some relation, or a record. -/
inductive Entry where
  | row (row : Row)
  | record (v : Value)

/-- Reads an entry under a schema; a row of an equal schema is kept as it is. -/
def rowOfEntry (schema : Schema) : Entry → Result (List Value)
  | .row row => if row.schema = schema then .ok row.values else rowOfRow schema row
  | .record v => rowOfRecord schema v

/-- Builds a relation from rows and records in any mixture. -/
def make (schema : Schema) (entries : List Entry) : Result Relation := do
  let rows ← entries.mapM (rowOfEntry schema)
  pure ⟨schema, rows⟩

def columnAt (r : Relation) (i : Nat) : List Value := r.rows.map fun row => row[i]?.getD .null

def column (r : Relation) (name : String) : Result (List Value) := do
  let i ← r.schema.indexOf name
  pure (r.columnAt i)

def checkLength (r : Relation) (name : Value) (values : List Value) : Result Unit :=
  if values.length = r.size then .ok ()
  else .error (.schema (.columnLength name values.length r.size))

def withColumn (r : Relation) (name : String) (type : ColumnType) (values : List Value) :
    Result Relation := do
  r.checkLength (.text name) values
  let c ← Column.make (.text name) type
  let schema ← r.schema.append c
  let values ← values.mapM c.coerce
  pure ⟨schema, r.rows.zipWith (fun row v => row ++ [v]) values⟩

/-- Appends a column whose type is given by its label; the label is read after the values have
been counted. -/
def withLabelledColumn (r : Relation) (name label : Value) (values : List Value) :
    Result Relation := do
  r.checkLength name values
  let type ← (Label.read ColumnType label).mapError .text
  let c ← Column.make name type
  r.withColumn c.name type values

/-- The rows of one relation followed by those of another of the same schema. -/
def concat (r s : Relation) : Result Relation :=
  if s.schema = r.schema then .ok ⟨r.schema, r.rows ++ s.rows⟩
  else .error (.schema (.differentSchemas r.names s.names))

/-- Keeps the elements that pass a test which may fail. -/
def keep {α : Type} (test : α → Result Bool) : List α → Result (List α)
  | [] => .ok []
  | a :: rest => do
    let passes ← test a
    let rest ← keep test rest
    pure (if passes then a :: rest else rest)

def filter (r : Relation) (test : Row → Result Bool) : Result Relation := do
  let rows ← keep (fun values => test (r.row values)) r.rows
  pure ⟨r.schema, rows⟩

def select (r : Relation) (names : List String) : Result Relation := do
  let schema ← r.schema.select names
  let places ← names.mapM r.schema.indexOf
  pure ⟨schema, r.rows.map fun row => places.map fun i => row[i]?.getD .null⟩

/-- Relations are equal when schemas are and rows are, one by one. -/
def same (r s : Relation) : Bool :=
  decide (r.schema = s.schema) && decide (r.size = s.size) &&
    (r.rows.zip s.rows).all fun (a, b) => Value.sameKeys a b

/-- The number of rows that are pairwise different. -/
def distinctRows (r : Relation) : Nat :=
  (r.rows.foldl (fun seen row => if seen.any (Value.sameKeys row) then seen else row :: seen)
    []).length

/-- A payload that no cell of the relation has. -/
def nextPayload (r : Relation) : Nat :=
  r.rows.foldl (fun next row => (row.filterMap Value.payload?).foldl
    (fun next payload => max next (payload + 1)) next) 1

def literal (r : Relation) : String :=
  "Relation(columns=" ++ Text.quotedList r.names ++ ", rows=" ++ toString r.size ++ ")"

/-- The row at an index; negative indices count from the end. -/
def rowAt (r : Relation) (i : Int) : Result Row :=
  let j := if i < 0 then i + r.size else i
  if j < 0 then .error .outOfRange
  else (orElse .outOfRange r.rows[j.toNat]?).map r.row

end Relation
end OrderedRelations
