import OrderedRelations.Value.Basic

/-!
# Spellings of values

`Value.literal` spells a value so that its kind shows: texts are quoted, dates and durations
are written as constructor calls. `Value.plain` is the spelling for readers: texts as they are,
dates and moments in ISO form.
-/

namespace OrderedRelations

namespace Value

/-- Named parts that are not zero, or a single zero. -/
def partsLiteral (parts : List (String × Int)) : String :=
  match parts.filter fun (_, n) => decide (n ≠ 0) with
  | [] => "0"
  | kept => ", ".intercalate (kept.map fun (name, n) => name ++ "=" ++ toString n)

def durationLiteral (microseconds : Int) : String :=
  let (days, seconds, micros) := Duration.parts microseconds
  "datetime.timedelta(" ++
    partsLiteral [("days", days), ("seconds", seconds), ("microseconds", micros)] ++ ")"

def dateLiteral (d : Date) : String :=
  "datetime.date(" ++ ", ".intercalate ([d.year, d.month, d.day].map toString) ++ ")"

def offsetLiteral (microseconds : Int) : String :=
  if microseconds = 0 then "datetime.timezone.utc"
  else "datetime.timezone(" ++ durationLiteral microseconds ++ ")"

/-- The parts of a clock reading; seconds are left out when they and the microseconds are
zero. -/
def clockParts (clock : Nat) : List Nat :=
  if Clock.microsecond clock ≠ 0 then
    [Clock.hour clock, Clock.minute clock, Clock.second clock, Clock.microsecond clock]
  else if Clock.second clock ≠ 0 then [Clock.hour clock, Clock.minute clock, Clock.second clock]
  else [Clock.hour clock, Clock.minute clock]

def timeLiteral (clock : Nat) : String :=
  "datetime.time(" ++ ", ".intercalate ((clockParts clock).map toString) ++ ")"

def datetimeLiteral (t : DateTime) : String :=
  "datetime.datetime(" ++
    ", ".intercalate
      (([t.date.year, t.date.month, t.date.day] ++ clockParts t.clock).map toString) ++
    (match t.offset with
    | none => ""
    | some microseconds => ", tzinfo=" ++ offsetLiteral microseconds) ++ ")"

mutual

/-- The spelling that shows the kind of a value. -/
def literal : Value → String
  | null => "None"
  | bool true => "True"
  | bool false => "False"
  | int n => toString n
  | float x => x.text
  | text s => Text.quoted s
  | date d => dateLiteral d
  | datetime t => datetimeLiteral t
  | time clock => timeLiteral clock
  | duration m => durationLiteral m
  | list items => "[" ++ ", ".intercalate (literals items) ++ "]"
  | record fields => "\x7b" ++ ", ".intercalate (fieldLiterals fields) ++ "\x7d"

def literals : List Value → List String
  | [] => []
  | v :: rest => v.literal :: literals rest

def fieldLiterals : FieldList → List String
  | [] => []
  | (name, v) :: rest => (Text.quoted name ++ ": " ++ v.literal) :: fieldLiterals rest

end

mutual

/-- Whether the whole numbers in a value have at most as many digits as a limit allows a spelling
to have. -/
def isSpellable (limit : Nat) : Value → Bool
  | int n => decide ((Nat.toDigits 10 n.natAbs).length ≤ limit)
  | list items => areSpellable limit items
  | record fields => areSpellableFields limit fields
  | _ => true

def areSpellable (limit : Nat) : List Value → Bool
  | [] => true
  | v :: rest => v.isSpellable limit && areSpellable limit rest

def areSpellableFields (limit : Nat) : FieldList → Bool
  | [] => true
  | (_, v) :: rest => v.isSpellable limit && areSpellableFields limit rest

end

def plain : Value → String
  | text s => s
  | date d => d.iso
  | datetime t => t.iso ' '
  | time clock => String.ofList (Clock.isoChars clock)
  | duration m => Duration.text m
  | v => v.literal

end Value
end OrderedRelations
