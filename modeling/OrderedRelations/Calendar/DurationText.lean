import OrderedRelations.Calendar.DateTime

/-!
# Durations in text

A duration is written with designators (`P1DT12H`), in days with a clock reading (`2 days,
12:30:00`) or as a clock reading alone, each after an optional sign. A year has 365 days and a
month 30. Only the last of the designated numbers may have a fraction, which is computed in
doubles and rounded to microseconds.
-/

namespace OrderedRelations.Duration

/-- Days, seconds and microseconds, none of them limited by the next. -/
structure Amount where
  days : Nat
  seconds : Nat
  micros : Nat

namespace Amount

def limit : Nat := 4294967295

def dayLimit : Nat := 999999999

def zero : Amount := ⟨0, 0, 0⟩

/-- The sum of two amounts, part by part, where it stays within the limit. -/
def add? (a b : Amount) : Option Amount :=
  let sum : Amount := ⟨a.days + b.days, a.seconds + b.seconds, a.micros + b.micros⟩
  if sum.days ≤ limit ∧ sum.seconds ≤ limit ∧ sum.micros ≤ limit then some sum else none

/-- Whole seconds of the microseconds become seconds, and whole days of those become days. -/
def carried? (a : Amount) : Option Amount :=
  let seconds := a.seconds + a.micros / 1000000
  if limit < seconds then none
  else some ⟨a.days + seconds / 86400, seconds % 86400, a.micros % 1000000⟩

def microseconds (a : Amount) : Nat := a.days * dayMicroseconds + a.seconds * 1000000 + a.micros

end Amount

/-- Reads digits, of which there must be one. -/
def readCount? (cs : List Char) : Option (Nat × List Char) :=
  let digits := cs.takeWhile Char.isDigit
  let n := Decimal.digitsValue digits
  if digits.isEmpty ∨ Amount.limit < n then none else some (n, cs.dropWhile Char.isDigit)

/-- The rational that a double next to a rational stands for. -/
def rounded (q : Rat) : Rat := ((Binary64.ofRat q).toRat?).getD 0

/-- The value of the digits behind a point: digit by digit as doubles, over a power of ten that
doubles still reach. -/
def fractionOf (digits : List Char) : Rat :=
  if 308 < digits.length then 0
  else
    let (num, den) := digits.foldl (fun (num, den) c =>
      (rounded (rounded (num * 10) + mkRat (Decimal.digitsValue [c]) 1), rounded (den * 10)))
      ((0 : Rat), (1 : Rat))
    rounded (num / den)

/-- The fraction behind a point or a comma, if there is one. -/
def readFractionPart : List Char → Option Rat × List Char
  | c :: rest =>
    if c = '.' ∨ c = ',' then
      (some (fractionOf (rest.takeWhile Char.isDigit)), rest.dropWhile Char.isDigit)
    else (none, c :: rest)
  | [] => (none, [])

/-- Whole units of a rational, and the rest as a double. -/
def splitWhole (q : Rat) : Nat × Rat := (q.floor.toNat, rounded (q - mkRat q.floor 1))

def nearestWhole (q : Rat) : Nat := (q + mkRat 1 2).floor.toNat

/-- A fraction of a unit of so many seconds. -/
def fractionOfSeconds (unit : Nat) (fraction : Rat) : Amount :=
  let (seconds, rest) := splitWhole (rounded (fraction * mkRat unit 1))
  ⟨0, seconds, nearestWhole (rounded (rest * 1000000))⟩

/-- A fraction of a unit of so many days. -/
def fractionOfDays (unit : Nat) (fraction : Rat) : Amount :=
  let (days, rest) := splitWhole (rounded (fraction * mkRat unit 1))
  let (seconds, rest) := splitWhole (rounded (rest * 86400))
  ⟨days, seconds, nearestWhole (rounded (rest * 1000000))⟩

def unitDays? : Char → Option Nat
  | 'Y' => some 365
  | 'M' => some 30
  | 'W' => some 7
  | 'D' => some 1
  | _ => none

def unitSeconds? : Char → Option Nat
  | 'H' => some 3600
  | 'M' => some 60
  | 'S' => some 1
  | _ => none

/-- What a number with a fraction stands for in front of a designator. -/
def designated? (inClock : Bool) (n : Nat) (fraction : Option Rat) (unit : Char) :
    Option Amount :=
  if inClock then
    (unitSeconds? unit).bind fun k =>
      Amount.add? ⟨0, n * k, 0⟩ ((fraction.map (fractionOfSeconds k)).getD .zero)
  else
    (unitDays? unit).bind fun k =>
      Amount.add? ⟨n * k, 0, 0⟩ ((fraction.map (fractionOfDays k)).getD .zero)

/-- Reads designated numbers to the end of the text, of which fuel bounds the number. -/
def readDesignated? : (fuel : Nat) → (inClock last : Bool) → Amount → List Char → Option Amount
  | _, _, _, amount, [] => some amount
  | 0, _, _, _, _ => none
  | fuel + 1, inClock, last, amount, 'T' :: rest =>
    if inClock then none else readDesignated? fuel true last amount rest
  | fuel + 1, inClock, last, amount, cs => do
    let (n, rest) ← readCount? cs
    let (fraction, rest) := readFractionPart rest
    match rest with
    | unit :: rest =>
      if last then none
      else
        let more ← designated? inClock n fraction unit
        let amount ← amount.add? more
        readDesignated? fuel inClock fraction.isSome amount rest
    | [] => none

def readTwo? (limit : Nat) (cs : List Char) : Option (Nat × List Char) :=
  (Date.readDigits? 2 cs).bind fun (n, rest) => if n < limit then some (n, rest) else none

/-- Reads minutes, with seconds behind them or not, to the end of the text. -/
def readMinutes? (cs : List Char) : Option Amount := do
  let (minutes, rest) ← readTwo? 60 cs
  match rest with
  | [] => pure ⟨0, minutes * 60, 0⟩
  | ':' :: rest =>
    let (seconds, rest) ← readTwo? 60 rest
    match rest with
    | [] => pure ⟨0, minutes * 60 + seconds, 0⟩
    | c :: digits =>
      if (c = '.' ∨ c = ',') ∧ digits ≠ [] ∧ digits.all Char.isDigit = true then
        pure ⟨0, minutes * 60 + seconds,
          Decimal.digitsValue (digits ++ List.replicate (6 - digits.length) '0')⟩
      else none
  | _ => none

def hourLimit : Nat := 2400000000

def hourDigits : Nat := 10

/-- How many characters behind the hours count; a longer fraction is cut off. -/
def minuteWidth : Nat := 12

/-- Reads hours, of which there may be more than a day has, and minutes. -/
def readClock? (cs : List Char) : Option Amount := do
  let digits := cs.takeWhile (· != ':')
  let hours := Decimal.digitsValue digits
  if cs.length < 5 ∨ digits.all Char.isDigit = false ∨ hourDigits < digits.length ∨
      hourLimit < hours then none
  else match cs.dropWhile (· != ':') with
    | [] => none
    | _ :: rest =>
      let amount ← readMinutes? (rest.take minuteWidth)
      amount.add? ⟨hours / 24, hours % 24 * 3600, 0⟩

/-- Takes one of the given characters off the front, if it is there. -/
def skipOne (chars : List Char) : List Char → List Char
  | c :: rest => if chars.contains c then rest else c :: rest
  | [] => []

/-- Takes one of the given characters off the front. -/
def takeOne? (chars : List Char) : List Char → Option (List Char)
  | c :: rest => if chars.contains c then some rest else none
  | [] => none

/-- Takes off what may follow the first letter of the word for days, all in one case. -/
def readDayWord? : List Char → Option (List Char)
  | 'a' :: rest => (takeOne? ['y'] rest).map (skipOne ['s'])
  | 'A' :: rest => (takeOne? ['Y'] rest).map (skipOne ['S'])
  | cs => some cs

/-- Reads a number of days, with a clock reading of less than a day behind it or not. -/
def readDays? (cs : List Char) : Option Amount := do
  let (days, rest) ← readCount? cs
  let rest ← takeOne? ['d', 'D'] (skipOne [' '] rest)
  let rest ← readDayWord? rest
  match skipOne [' '] (skipOne [','] rest) with
  | [] => pure ⟨days, 0, 0⟩
  | clock =>
    let amount ← readClock? clock
    if amount.days = 0 then amount.add? ⟨days, 0, 0⟩ else none

/-- Reads a duration behind its sign; `length` is that of the text with the sign. -/
def readUnsigned? (length : Nat) : List Char → Option Amount
  | 'P' :: rest =>
    if rest.length < 2 then none else readDesignated? (rest.length + 1) false false .zero rest
  | cs =>
    if length < 5 ∨ cs.any (fun c => c == 'd' || c == 'D') = true then readDays? cs
    else readClock? cs

def read? (s : String) : Option Int :=
  let cs := s.toList
  let (negative, body) := match cs with
    | '-' :: rest => (true, rest)
    | '+' :: rest => (false, rest)
    | rest => (false, rest)
  ((readUnsigned? cs.length body).bind Amount.carried?).bind fun amount =>
    let n := amount.microseconds
    if Amount.dayLimit < amount.days then none
    else some (if negative then -(n : Int) else n)

/-- Whether a duration has no more days than a duration may have, in either direction. -/
def inRange (microseconds : Int) : Bool :=
  decide ((Int.fdiv microseconds dayMicroseconds).natAbs ≤ Amount.dayLimit)

end OrderedRelations.Duration
