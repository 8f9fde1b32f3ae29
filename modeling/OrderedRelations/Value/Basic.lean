import OrderedRelations.Calendar.DateTime
import OrderedRelations.Number.Quantity
import OrderedRelations.Text.Quoted

/-!
# Values

A value is what a cell of a relation may hold, or what arrives where a cell, an option or a
description is expected: times, durations, lists and records never become cells. A time is a
clock reading in microseconds.

Equality of values looks through kinds: a boolean is zero or one, a whole number may equal a
double, aware moments are equal by instant. Order exists between numbers, texts, dates, moments
of one awareness, durations, and lists, which the first different elements decide.
-/

namespace OrderedRelations

inductive Value where
  | null
  | bool (b : Bool)
  | int (n : Int)
  | float (x : Binary64)
  | text (s : String)
  | date (d : Date)
  | datetime (t : DateTime)
  | time (clock : Nat)
  | duration (microseconds : Int)
  | list (items : List Value)
  | record (fields : List (String × Value))
  deriving Inhabited

/-- The fields of a record by name, in order. -/
abbrev FieldList := List (String × Value)

namespace Value

def isNull : Value → Bool
  | null => true
  | _ => false

def isNaN : Value → Bool
  | float (.nan _) => true
  | _ => false

/-- The number that a boolean, a whole number or a double stands for. -/
def quantity? : Value → Option Quantity
  | bool b => some (.whole (if b then 1 else 0))
  | int n => some (.whole n)
  | float x => some (.real x)
  | _ => none

def ofQuantity : Quantity → Value
  | .whole n => int n
  | .real x => float x

mutual

def same : Value → Value → Bool
  | null, null => true
  | text s, text t => decide (s = t)
  | date c, date d => decide (c = d)
  | datetime s, datetime t => s.same t
  | time c, time d => decide (c = d)
  | duration m, duration n => decide (m = n)
  | list xs, list ys => sameAll xs ys
  | record fs, record gs => sameFields fs gs
  | a, b => match a.quantity?, b.quantity? with
    | some p, some q => p.same q
    | _, _ => false

def sameAll : List Value → List Value → Bool
  | [], [] => true
  | a :: as, b :: bs => a.same b && sameAll as bs
  | _, _ => false

/-- Equality of two records with their fields in one order. -/
def sameFields : FieldList → FieldList → Bool
  | [], [] => true
  | (m, a) :: as, (n, b) :: bs => decide (m = n) && a.same b && sameFields as bs
  | _, _ => false

end

/-- Equality of cells: by value, except that what is not a number, which equals nothing by
value, is recognised by its payload. -/
def sameKey : Value → Value → Bool
  | float (.nan p), float (.nan q) => decide (p = q)
  | a, b => a.same b

/-- Marks what is not a number with a payload. -/
def withPayload (payload : Nat) : Value → Value
  | float (.nan _) => float (.nan payload)
  | v => v

def payload? : Value → Option Nat
  | float (.nan payload) => some payload
  | _ => none

/-- Equality of cells place by place. -/
def sameKeys : List Value → List Value → Bool
  | [], [] => true
  | a :: as, b :: bs => a.sameKey b && sameKeys as bs
  | _, _ => false

mutual

/-- Whether one value is less than another; nothing for values without an order. -/
def less? : Value → Value → Option Bool
  | text s, text t => some (Text.less s t)
  | date c, date d => some (c.less d)
  | datetime s, datetime t =>
    match s.isAware, t.isAware with
    | true, true => some (decide (s.instant < t.instant))
    | false, false => some (s.readingLess t)
    | _, _ => none
  | duration m, duration n => some (decide (m < n))
  | list xs, list ys => lessAll? xs ys
  | a, b => match a.quantity?, b.quantity? with
    | some p, some q => some (p.less q)
    | _, _ => none

/-- Whether one list comes before another: the first different elements decide, and a list comes
before those that it begins. -/
def lessAll? : List Value → List Value → Option Bool
  | _, [] => some false
  | [], _ :: _ => some true
  | a :: as, b :: bs => if a.same b then lessAll? as bs else a.less? b

end

/-- Whether one value is less than another or equal to it. -/
def atMost? (a b : Value) : Option Bool := (a.less? b).map fun l => l || a.same b

/-- The form that sorting compares: an aware moment becomes naive in UTC, where the calendar
has it. -/
def comparable? : Value → Option Value
  | datetime t => t.utc?.map datetime
  | v => some v

/-- Null, false, zero and everything empty count as false. -/
def truthy : Value → Bool
  | null => false
  | bool b => b
  | int n => decide (n ≠ 0)
  | float x => !x.isZero
  | text s => !s.isEmpty
  | date _ => true
  | datetime _ => true
  | time _ => true
  | duration m => decide (m ≠ 0)
  | list items => !items.isEmpty
  | record fields => !fields.isEmpty

def kindName : Value → String
  | null => "NoneType"
  | bool _ => "bool"
  | int _ => "int"
  | float _ => "float"
  | text _ => "str"
  | date _ => "date"
  | datetime _ => "datetime"
  | time _ => "time"
  | duration _ => "timedelta"
  | list _ => "list"
  | record _ => "dict"

end Value
end OrderedRelations
