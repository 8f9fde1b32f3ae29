import OrderedRelations.Number.Decimal

/-!
# Dates of the proleptic Gregorian calendar

Years run from 1 to 9999. `Date.ordinal` counts days from 1 for the first of January of year 1,
and `Date.ofOrdinal?` finds the date of a day count.
-/

namespace OrderedRelations

namespace Calendar

def isLeap (year : Nat) : Bool :=
  year % 4 == 0 && (year % 100 != 0 || year % 400 == 0)

def daysInMonth (year month : Nat) : Nat :=
  if month = 2 then (if isLeap year then 29 else 28)
  else if month = 4 ∨ month = 6 ∨ month = 9 ∨ month = 11 then 30
  else 31

def daysBeforeMonth (year : Nat) : Nat → Nat
  | 0 => 0
  | 1 => 0
  | month + 2 => daysBeforeMonth year (month + 1) + daysInMonth year (month + 1)

/-- Days before the first of January of a year from 1 on. -/
def daysBeforeYear (year : Nat) : Nat :=
  365 * (year - 1) + (year - 1) / 4 - (year - 1) / 100 + (year - 1) / 400

def isDate (year month day : Nat) : Bool :=
  decide (1 ≤ year) && decide (year ≤ 9999) && decide (1 ≤ month) && decide (month ≤ 12) &&
    decide (1 ≤ day) && decide (day ≤ daysInMonth year month)

/-- The year of a day counted from zero, and the days of that year before it. -/
def yearAndDay (n : Nat) : Nat × Nat :=
  let centuries := min (n % 146097 / 36524) 3
  let inCentury := n % 146097 - 36524 * centuries
  let years := min (inCentury % 1461 / 365) 3
  (400 * (n / 146097) + 100 * centuries + 4 * (inCentury / 1461) + years + 1,
    inCentury % 1461 - 365 * years)

/-- Walks through the months of a year, starting at `month` with `left` of them to go, until
the day counted from zero falls into one. -/
def monthAndDay (year : Nat) : (left month day : Nat) → Nat × Nat
  | 0, month, day => (month, day + 1)
  | left + 1, month, day =>
    if day < daysInMonth year month then (month, day + 1)
    else monthAndDay year left (month + 1) (day - daysInMonth year month)

end Calendar

structure Date where
  year : Nat
  month : Nat
  day : Nat
  valid : Calendar.isDate year month day = true
  deriving DecidableEq

namespace Date

def ofFields? (year month day : Nat) : Option Date :=
  if h : Calendar.isDate year month day = true then some ⟨year, month, day, h⟩ else none

/-- Days from the first of January of year 1, which is day 1. -/
def ordinal (d : Date) : Nat :=
  Calendar.daysBeforeYear d.year + Calendar.daysBeforeMonth d.year d.month + d.day

def epochOrdinal : Nat := 719163

def ofOrdinal? (n : Int) : Option Date :=
  if n < 1 then none
  else
    let (year, rest) := Calendar.yearAndDay (n - 1).toNat
    let (month, day) := Calendar.monthAndDay year 12 1 rest
    ofFields? year month day

def sinceEpoch (d : Date) : Int := (d.ordinal : Int) - epochOrdinal

/-- The date so many days from the first of January 1970, where there is one. -/
def ofSinceEpoch? (n : Int) : Option Date := ofOrdinal? (n + epochOrdinal)

def less (a b : Date) : Bool :=
  decide (a.year < b.year) || (decide (a.year = b.year) &&
    (decide (a.month < b.month) || (decide (a.month = b.month) && decide (a.day < b.day))))

/-- A whole number with zeros in front up to a width. -/
def padded (width n : Nat) : List Char :=
  let digits := Nat.toDigits 10 n
  List.replicate (width - digits.length) '0' ++ digits

def isoChars (d : Date) : List Char :=
  padded 4 d.year ++ '-' :: padded 2 d.month ++ '-' :: padded 2 d.day

def iso (d : Date) : String := String.ofList d.isoChars

/-- Reads exactly as many digits as asked for, and gives the rest back. -/
def readDigits? (width : Nat) (cs : List Char) : Option (Nat × List Char) :=
  let digits := cs.take width
  if digits.length = width ∧ digits.all Char.isDigit = true then
    some (Decimal.digitsValue digits, cs.drop width)
  else none

def skip? (c : Char) : List Char → Option (List Char)
  | d :: rest => if c = d then some rest else none
  | [] => none

def readIso? (cs : List Char) : Option (Date × List Char) := do
  let (year, cs) ← readDigits? 4 cs
  let cs ← skip? '-' cs
  let (month, cs) ← readDigits? 2 cs
  let cs ← skip? '-' cs
  let (day, cs) ← readDigits? 2 cs
  let d ← ofFields? year month day
  pure (d, cs)

def ofIso? (s : String) : Option Date :=
  match readIso? s.toList with
  | some (d, []) => some d
  | _ => none

end Date
end OrderedRelations
