import OrderedRelations.Relation.Basic

/-!
# Storage types of columnar tables

The types that columns of a columnar table may have, which column type each of them carries,
and how messages spell them.
-/

namespace OrderedRelations

inductive TimeUnit where
  | ms
  | us
  | ns
  deriving DecidableEq

inductive DataType where
  | signed (bits : Nat)
  | unsigned (bits : Nat)
  | float32
  | float64
  | string
  | date
  | boolean
  | datetime (unit : TimeUnit) (zone : Option String)
  | duration (unit : TimeUnit)
  | null
  | time
  | binary
  | categorical
  | list (element : DataType)
  | decimal (precision scale : Nat)
  deriving DecidableEq

namespace TimeUnit

def label : TimeUnit → String
  | ms => "ms"
  | us => "us"
  | ns => "ns"

end TimeUnit

namespace DataType

def text : DataType → String
  | signed bits => "Int" ++ toString bits
  | unsigned bits => "UInt" ++ toString bits
  | float32 => "Float32"
  | float64 => "Float64"
  | string => "String"
  | date => "Date"
  | boolean => "Boolean"
  | datetime unit zone =>
    "Datetime(time_unit='" ++ unit.label ++ "', time_zone=" ++
      (match zone with
      | some name => Text.quoted name
      | none => "None") ++ ")"
  | duration unit => "Duration(time_unit='" ++ unit.label ++ "')"
  | null => "Null"
  | time => "Time"
  | binary => "Binary"
  | categorical => "Categorical"
  | list element => "List(" ++ element.text ++ ")"
  | decimal precision scale =>
    "Decimal(precision=" ++ toString precision ++ ", scale=" ++ toString scale ++ ")"

/-- The column type that a storage type carries. Unsigned numbers of 64 bits have none, since
they do not fit a signed one. -/
def columnType? : DataType → Option ColumnType
  | signed _ => some .integer
  | unsigned bits => if bits = 64 then none else some .integer
  | float32 => some .float
  | float64 => some .float
  | string => some .text
  | date => some .date
  | datetime _ _ => some .datetime
  | boolean => some .boolean
  | _ => none

def ofColumnType : ColumnType → DataType
  | .integer => signed 64
  | .float => float64
  | .text => string
  | .date => date
  | .datetime => datetime .us none
  | .boolean => boolean

end DataType
end OrderedRelations
