import OrderedRelations.Columnar.DataType

/-!
# Stored values

How a column of a storage type holds values and gives them back. Days, times, moments and
durations are held as whole numbers, counted in units of their type, so a moment that no calendar
has can be stored, grouped and compared; only reading it fails.
-/

namespace OrderedRelations

namespace TimeUnit

/-- Microseconds in units, as a whole number of 64 bits that wraps around. -/
def ofMicroseconds (unit : TimeUnit) (n : Int) : Int :=
  match unit with
  | ms => Int.fdiv n 1000
  | us => n
  | ns => Int.bmod (n * 1000) (Nat.pow 2 64)

def toMicroseconds (unit : TimeUnit) (n : Int) : Int :=
  match unit with
  | ms => n * 1000
  | us => n
  | ns => Int.fdiv n 1000

end TimeUnit

namespace DataType

/-- Whether values of a type are places or stretches of time. -/
def isTemporal : DataType → Bool
  | date => true
  | time => true
  | datetime _ _ => true
  | duration _ => true
  | _ => false

/-- Whole numbers from the least to the greatest of so many bits. -/
def inSigned (bits : Nat) (n : Int) : Bool :=
  decide (-(Nat.pow 2 (bits - 1) : Int) ≤ n) && decide (n < (Nat.pow 2 (bits - 1) : Int))

/-- The numbers that a type stores of the whole ones. -/
def holdsWhole (type : DataType) (n : Int) : Bool :=
  match type with
  | signed bits => inSigned bits n
  | unsigned bits => decide (0 ≤ n) && decide (n < (Nat.pow 2 bits : Int))
  | date => inSigned 32 n
  | time => decide (0 ≤ n) && decide (n < (dayMicroseconds : Int) * 1000)
  | datetime _ _ => inSigned 64 n
  | duration _ => inSigned 64 n
  | decimal _ _ => true
  | _ => false

def roundTo (type : DataType) (x : Binary64) : Binary64 :=
  match type with
  | float32 => x.toSingle
  | _ => x

/-- A whole number, stored as itself or as a double. -/
def storeWhole (type : DataType) (n : Int) : Result Value :=
  if type = float32 ∨ type = float64 then
    (orElse .columnar (Binary64.ofInt? n)).map fun x => .float (type.roundTo x)
  else if type.holdsWhole n then .ok (.int n)
  else .error .columnar

/-- The form in which a type holds a value. The type of nulls holds nothing else. -/
def store (type : DataType) (v : Value) : Result Value :=
  match type, v with
  | _, .null => .ok .null
  | null, _ => .ok .null
  | boolean, .bool b => .ok (.bool b)
  | boolean, _ => .error .columnar
  | type, .bool b => type.storeWhole (if b then 1 else 0)
  | type, .int n => type.storeWhole n
  | float32, .float x => .ok (.float (float32.roundTo x))
  | float64, .float x => .ok (.float x)
  | string, .text s => .ok (.text s)
  | categorical, .text s => .ok (.text s)
  | date, .date d => .ok (.int d.sinceEpoch)
  | datetime unit _, .date d => .ok (.int (unit.ofMicroseconds (d.sinceEpoch * dayMicroseconds)))
  | datetime unit _, .datetime t => .ok (.int (unit.ofMicroseconds t.sinceEpoch))
  | duration unit, .duration m => .ok (.int (unit.ofMicroseconds m))
  | list element, .list items => (items.mapM element.store).map .list
  | _, _ => .error .columnar

/-- A stored value as it is read: days and moments must be on the calendar. -/
def read (type : DataType) (v : Value) : Result Value :=
  match type, v with
  | date, .int n => (orElse .columnar (Date.ofSinceEpoch? n)).map .date
  | time, .int n => .ok (.time (Int.fdiv n 1000).toNat)
  | datetime unit zone, .int n =>
    (orElse .columnar (DateTime.ofSinceEpoch? (unit.toMicroseconds n))).map fun t =>
      .datetime { t with offset := zone.map fun _ => 0 }
  | duration unit, .int n => .ok (.duration (unit.toMicroseconds n))
  | list element, .list items => (items.mapM element.read).map .list
  | _, v => .ok v

/-- The type that a text, a day, a moment or a duration has by itself. -/
def ofValue? : Value → Option DataType
  | .text _ => some string
  | .date _ => some date
  | .datetime _ => some (datetime .us none)
  | .duration _ => some (duration .us)
  | _ => none

/-- The type that a temporal column takes when its first value is of another type: aware moments
bring UTC with them, and what is not converted keeps its own type. -/
def adapted? (type : DataType) (first : Value) : Option DataType :=
  match type, first with
  | datetime unit zone, .datetime t =>
    some (datetime unit (if t.isAware then some "UTC" else zone))
  | datetime unit zone, .date _ => some (datetime unit zone)
  | datetime _ _, _ => none
  | duration unit, .duration _ => some (duration unit)
  | duration unit, .datetime _ => some (datetime unit none)
  | duration _, .date _ => some date
  | duration _, _ => none
  | _, first => ofValue? first

/-- Whole numbers, booleans among them, and nulls. -/
def isCount : Value → Bool
  | .null => true
  | .bool _ => true
  | .int _ => true
  | _ => false

/-- Stores the values of one column. A temporal column holds counts, or values of the type of the
first of them. -/
def storeAll (type : DataType) (values : List Value) : Result (DataType × List Value) :=
  match values.find? fun v => !v.isNull with
  | none => (values.mapM type.store).map (type, ·)
  | some first =>
    if !type.isTemporal then (values.mapM type.store).map (type, ·)
    else if isCount first then
      if values.all isCount then (values.mapM type.store).map (type, ·) else .error .columnar
    else if values.all fun v => v.isNull || decide (ofValue? v = ofValue? first) then do
      let adapted ← orElse .columnar (type.adapted? first)
      let stored ← values.mapM adapted.store
      pure (adapted, stored)
    else .error .columnar

end DataType
end OrderedRelations
