import OrderedRelations.Calendar.DurationText
import OrderedRelations.Failure
import OrderedRelations.Record.NumberText

/-!
# Reading records

Reading a record looks at its fields in a fixed order and collects every problem, so that a
refusal names all of them. A failure that is no problem of a field breaks the reading off.
-/

namespace OrderedRelations

/-- A field that was read, or the problems with it, unless the whole reading is broken off. -/
abbrev Reading (α : Type) := Result (Except (List RecordProblem) α)

namespace Reading

def accept {α : Type} (a : α) : Reading α := .ok (.ok a)

def refuse {α : Type} (problem : RecordProblem) : Reading α := .ok (.error [problem])

def misshapen {α : Type} : Reading α := refuse .shape

def ofOption {α : Type} : Option α → Reading α
  | some a => accept a
  | none => misshapen

def ofText {α : Type} : Except TextFault α → Reading α
  | .ok a => accept a
  | .error fault => refuse (.stated (.text fault))

def map {α β : Type} (f : α → β) (r : Reading α) : Reading β := Except.map (Except.map f) r

/-- Goes on with what was read; a further reading is not tried on a refused field. -/
def bind {α β : Type} (r : Reading α) (f : α → Reading β) : Reading β :=
  match r with
  | .error failure => .error failure
  | .ok (.error problems) => .ok (.error problems)
  | .ok (.ok a) => f a

/-- Reads one field after another and keeps the problems of both. -/
def both {α β : Type} (r : Reading α) (s : Reading β) : Reading (α × β) :=
  match r with
  | .error failure => .error failure
  | .ok first =>
    match s with
    | .error failure => .error failure
    | .ok second =>
      match first, second with
      | .ok a, .ok b => accept (a, b)
      | .error ps, .error qs => .ok (.error (ps ++ qs))
      | .error ps, .ok _ => .ok (.error ps)
      | .ok _, .error qs => .ok (.error qs)

def all {α β : Type} (f : α → Reading β) : List α → Reading (List β)
  | [] => accept []
  | a :: rest => map (fun (b, bs) => b :: bs) (both (f a) (all f rest))

/-- A record inside another: its problems become problems of the field. -/
def nested {α : Type} : Result α → Reading α
  | .ok a => accept a
  | .error (.record problems) => .ok (.error problems)
  | .error failure => .error failure

/-- Builds the record from fields without problems. -/
def finish {α β : Type} (r : Reading α) (build : α → Result β) : Result β :=
  match r with
  | .error failure => .error failure
  | .ok (.error problems) => .error (.record problems)
  | .ok (.ok a) => build a

end Reading

namespace FieldList

def required {α : Type} (fields : FieldList) (name : String) (read : Value → Reading α) :
    Reading α :=
  match fields.lookup name with
  | some v => read v
  | none => Reading.misshapen

/-- A field that may be missing. -/
def optional {α : Type} (fields : FieldList) (name : String) (missing : α)
    (read : Value → Reading α) : Reading α :=
  match fields.lookup name with
  | some v => read v
  | none => Reading.accept missing

/-- Refuses every field without a place in the record. -/
def only (fields : FieldList) (names : List String) : Reading Unit :=
  match (List.map Prod.fst fields).filter fun name => !names.contains name with
  | [] => Reading.accept ()
  | extra => .ok (.error (extra.map fun _ => .shape))

end FieldList

namespace Reading

def text : Value → Reading String
  | .text s => accept s
  | _ => misshapen

def nullable {α : Type} (read : Value → Reading α) : Value → Reading (Option α)
  | .null => accept none
  | v => map some (read v)

def texts : Value → Reading (List String)
  | .list items => all text items
  | _ => misshapen

def textOrTexts : Value → Reading (List String)
  | .text s => accept [s]
  | v => texts v

/-- The whole number that a double stands for, within 64 bits. -/
def wholeFloat? : Binary64 → Option Int
  | .number q =>
    if q.den = 1 ∧ q.num.natAbs < Nat.pow 2 63 then some q.num else none
  | .negativeZero => some 0
  | _ => none

/-- A whole number, or what stands for one: a boolean, a text, a double without fraction. -/
def whole : Value → Reading Int
  | .int n => accept n
  | .bool b => accept (if b then 1 else 0)
  | .float x => ofOption (wholeFloat? x)
  | .text s => ofOption (NumberText.whole? s)
  | _ => misshapen

def wholeFrom (least : Nat) (v : Value) : Reading { n : Nat // least ≤ n } :=
  bind (whole v) fun n =>
    if h : least ≤ n.toNat then (if n < 0 then misshapen else accept ⟨n.toNat, h⟩)
    else misshapen

/-- A text as an offset: a whole number, else a double, else a duration. -/
def offsetText (s : String) : Reading Offset :=
  match NumberText.whole? s, NumberText.real? s, Duration.read? s with
  | some n, _, _ => accept (.whole n)
  | none, some x, _ => accept (.real x)
  | none, none, some m => if Duration.inRange m then accept (.duration m) else .error .overflow
  | none, none, none => misshapen

def offset : Value → Reading Offset
  | .int n => accept (.whole n)
  | .bool b => accept (.whole (if b then 1 else 0))
  | .float x => accept (.real x)
  | .duration m => accept (.duration m)
  | .text s => offsetText s
  | _ => misshapen

/-- A boolean, zero or one, or a word for either. -/
def switch : Value → Reading Bool
  | .bool b => accept b
  | .int n => if n = 0 then accept false else if n = 1 then accept true else misshapen
  | .float x =>
    if x.isZero then accept false
    else if x = .number 1 then accept true
    else misshapen
  | .text s =>
    let word := String.ofList (s.toList.map Char.toLower)
    if ["0", "off", "f", "false", "n", "no"].contains word then accept false
    else if ["1", "on", "t", "true", "y", "yes"].contains word then accept true
    else misshapen
  | _ => misshapen

end Reading
end OrderedRelations
