import OrderedRelations.Calendar.Date

/-!
# Moments with microseconds

A moment has a date, a clock reading in microseconds since midnight and, when it is aware, a
fixed offset from UTC in microseconds. A naive moment is read as UTC.
-/

namespace OrderedRelations

def dayMicroseconds : Nat := 86400000000

/-! The parts of a clock reading. -/

namespace Clock

def hour (clock : Nat) : Nat := clock / 3600000000

def minute (clock : Nat) : Nat := clock / 60000000 % 60

def second (clock : Nat) : Nat := clock / 1000000 % 60

def microsecond (clock : Nat) : Nat := clock % 1000000

/-- Hours, minutes and seconds, and microseconds unless they are zero. -/
def isoChars (clock : Nat) : List Char :=
  Date.padded 2 (hour clock) ++ ':' :: Date.padded 2 (minute clock) ++
    ':' :: Date.padded 2 (second clock) ++
    (if microsecond clock = 0 then [] else '.' :: Date.padded 6 (microsecond clock))

end Clock

/-- A date with a clock reading, and an offset east of UTC in microseconds when it is aware. -/
structure DateTime where
  date : Date
  clock : Nat
  clock_lt : clock < dayMicroseconds
  offset : Option Int
  deriving DecidableEq

namespace DateTime

def isAware (t : DateTime) : Bool := t.offset.isSome

/-- Microseconds between the start of year 1 and the reading of date and clock. -/
def reading (t : DateTime) : Int := (t.date.ordinal : Int) * dayMicroseconds + t.clock

/-- The reading that a clock at UTC has at this moment. -/
def instant (t : DateTime) : Int := t.reading - t.offset.getD 0

/-- The naive moment with a reading, where the calendar has one. -/
def ofReading? (n : Int) : Option DateTime :=
  (Date.ofOrdinal? (Int.fdiv n dayMicroseconds)).bind fun d =>
    let clock := (Int.fmod n dayMicroseconds).toNat
    if h : clock < dayMicroseconds then some ⟨d, clock, h, none⟩ else none

/-- The naive moment in UTC; nothing where that falls outside the calendar. A naive moment
stays as it is. -/
def utc? (t : DateTime) : Option DateTime :=
  match t.offset with
  | none => some t
  | some _ => ofReading? t.instant

/-- Compares date and clock in this order, without regard to offsets. -/
def readingLess (s t : DateTime) : Bool :=
  s.date.less t.date || (decide (s.date = t.date) && decide (s.clock < t.clock))

/-- Equality of moments: aware ones by instant, and never a naive one with an aware one. -/
def same (s t : DateTime) : Bool :=
  match s.isAware, t.isAware with
  | true, true => decide (s.instant = t.instant)
  | false, false => decide (s.date = t.date) && decide (s.clock = t.clock)
  | _, _ => false

/-- Microseconds from the first of January 1970 in UTC. -/
def sinceEpoch (t : DateTime) : Int := t.instant - (Date.epochOrdinal : Int) * dayMicroseconds

/-- The naive moment so many microseconds from the first of January 1970, where the calendar
has one. -/
def ofSinceEpoch? (n : Int) : Option DateTime :=
  ofReading? (n + (Date.epochOrdinal : Int) * dayMicroseconds)

/-- Hours and minutes, seconds unless the offset is in whole minutes, and microseconds unless it is
in whole seconds. -/
def offsetChars (microseconds : Int) : List Char :=
  let n := microseconds.natAbs
  (if microseconds < 0 then '-' else '+') :: Date.padded 2 (Clock.hour n) ++
    ':' :: Date.padded 2 (Clock.minute n) ++
    (if n % 60000000 = 0 then []
    else ':' :: Date.padded 2 (Clock.second n) ++
      (if Clock.microsecond n = 0 then [] else '.' :: Date.padded 6 (Clock.microsecond n)))

def isoChars (separator : Char) (t : DateTime) : List Char :=
  t.date.isoChars ++ separator :: Clock.isoChars t.clock ++
    (match t.offset with
    | none => []
    | some microseconds => offsetChars microseconds)

def iso (separator : Char) (t : DateTime) : String := String.ofList (t.isoChars separator)

/-- Reads a fraction of a second, cut to microseconds. -/
def readFraction? (cs : List Char) : Option (Nat × List Char) :=
  let digits := cs.takeWhile Char.isDigit
  if digits.isEmpty then none
  else some (Decimal.digitsValue ((digits ++ List.replicate 6 '0').take 6),
    cs.dropWhile Char.isDigit)

/-- Reads seconds and their fraction in microseconds, which may be missing. -/
def readSeconds? : List Char → Option (Nat × List Char)
  | ':' :: cs => do
    let (second, cs) ← Date.readDigits? 2 cs
    let (fraction, cs) ← match cs with
      | '.' :: cs => readFraction? cs
      | cs => some (0, cs)
    some (second * 1000000 + fraction, cs)
  | cs => some (0, cs)

/-- Reads an offset, which takes the rest of the text. -/
def readOffset? : List Char → Option (Option Int)
  | [] => some none
  | ['Z'] => some (some 0)
  | sign :: cs => do
    let (hours, cs) ← Date.readDigits? 2 cs
    let cs ← Date.skip? ':' cs
    let (minutes, cs) ← Date.readDigits? 2 cs
    let (seconds, cs) ← readSeconds? cs
    let n : Int := (hours * 60 + minutes) * 60000000 + seconds
    if !cs.isEmpty ∨ dayMicroseconds ≤ n then none
    else if sign = '+' then some (some n)
    else if sign = '-' then some (some (-n))
    else none

/-- Reads date, clock and offset; seconds, their fraction and the offset may be missing. -/
def ofIso? (s : String) : Option DateTime := do
  let (date, cs) ← Date.readIso? s.toList
  let cs ← match cs with
    | 'T' :: cs => some cs
    | ' ' :: cs => some cs
    | _ => none
  let (hour, cs) ← Date.readDigits? 2 cs
  let cs ← Date.skip? ':' cs
  let (minute, cs) ← Date.readDigits? 2 cs
  let (seconds, cs) ← readSeconds? cs
  let offset ← readOffset? cs
  if 23 < hour ∨ 59 < minute ∨ 60000000 ≤ seconds then none
  else
    let clock := (hour * 60 + minute) * 60000000 + seconds
    if h : clock < dayMicroseconds then some ⟨date, clock, h, offset⟩ else none

end DateTime

namespace Duration

/-- Whole days, seconds of a day and microseconds of a second; only the days can be negative. -/
def parts (microseconds : Int) : Int × Int × Int :=
  (Int.fdiv microseconds dayMicroseconds,
    Int.fmod microseconds dayMicroseconds / 1000000,
    Int.fmod microseconds dayMicroseconds % 1000000)

/-- Days, when there are any, before hours, minutes and seconds. -/
def text (microseconds : Int) : String :=
  let (days, seconds, micros) := parts microseconds
  let dayText :=
    if days = 0 then ""
    else toString days ++ (if days.natAbs = 1 then " day, " else " days, ")
  let clock := toString (seconds / 3600) ++ ":" ++
    String.ofList (Date.padded 2 (seconds / 60 % 60).toNat) ++ ":" ++
    String.ofList (Date.padded 2 (seconds % 60).toNat)
  let fraction := if micros = 0 then "" else "." ++ String.ofList (Date.padded 6 micros.toNat)
  dayText ++ clock ++ fraction

/-- The number of days, rounded once as seconds and once more as days. -/
def inDays (microseconds : Int) : Binary64 :=
  match (Binary64.ofRat (mkRat microseconds 1000000)).toRat? with
  | some seconds => Binary64.ofRat (seconds / mkRat 86400 1)
  | none => Binary64.infinity (decide (microseconds < 0))

end Duration
end OrderedRelations
