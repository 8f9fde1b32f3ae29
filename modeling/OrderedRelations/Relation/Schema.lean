import OrderedRelations.Vocabulary.Label

/-!
# Schemas

A schema is a sequence of typed columns with distinct names, none of them empty. Two schemas
are equal only when names, types and order agree.
-/

namespace OrderedRelations

structure Column where
  name : String
  type : ColumnType
  named : name ≠ ""
  deriving DecidableEq

namespace Column

/-- A column name must be a text with at least one character. -/
def make (name : Value) (type : ColumnType) : Result Column :=
  match name with
  | .text s =>
    if h : s = "" then .error (.schema (.unnamedColumn name)) else .ok ⟨s, type, h⟩
  | _ => .error (.schema (.unnamedColumn name))

/-- The type is read first, then the name is checked. -/
def ofLabel (name label : Value) : Result Column := do
  let type ← (Label.read ColumnType label).mapError .text
  make name type

/-- The name is checked first, then the type is read. -/
def declare (name label : Value) : Result Column :=
  match make name .integer with
  | .ok c => (Label.read ColumnType label).mapError .text |>.map fun type => { c with type := type }
  | .error failure => .error failure

end Column

structure Schema where
  columns : List Column
  distinct : (columns.map Column.name).Nodup
  deriving DecidableEq

namespace Schema

def names (s : Schema) : List String := s.columns.map Column.name

def width (s : Schema) : Nat := s.columns.length

/-- The first name that has occurred before. -/
def repeatedName? (seen : List String) : List String → Option String
  | [] => none
  | name :: rest => if seen.contains name then some name else repeatedName? (name :: seen) rest

def ofColumns (columns : List Column) : Result Schema :=
  if h : (columns.map Column.name).Nodup then .ok ⟨columns, h⟩
  else .error (.schema (.duplicateColumn
    ((repeatedName? [] (columns.map Column.name)).getD "")))

/-- Builds a schema from names and type labels. -/
def ofLabels (columns : List (Value × Value)) : Result Schema := do
  let columns ← columns.mapM fun (name, label) => Column.ofLabel name label
  ofColumns columns

def contains (s : Schema) (name : String) : Bool := s.names.contains name

/-- The place of a column, when it exists. -/
def indexOf? (s : Schema) (name : String) : Option Nat :=
  s.columns.findIdx? fun c => decide (c.name = name)

def indexOf (s : Schema) (name : String) : Result Nat :=
  orElse (.schema (.unknownColumn name s.names)) (s.indexOf? name)

def find? (s : Schema) (name : String) : Option Column :=
  s.columns.find? fun c => decide (c.name = name)

def column (s : Schema) (name : String) : Result Column :=
  orElse (.schema (.unknownColumn name s.names)) (s.find? name)

def typeOf (s : Schema) (name : String) : Result ColumnType := do
  let c ← s.column name
  pure c.type

/-- The schema with one more column at its end. -/
def append (s : Schema) (c : Column) : Result Schema := ofColumns (s.columns ++ [c])

/-- The schema of the named columns, in the given order. -/
def select (s : Schema) (names : List String) : Result Schema := do
  let columns ← names.mapM s.column
  ofColumns columns

end Schema
end OrderedRelations
