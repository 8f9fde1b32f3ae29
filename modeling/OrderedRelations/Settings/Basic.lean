import OrderedRelations.Failure
import OrderedRelations.Text.Digits
import OrderedRelations.Text.Lowercase

/-!
# Settings of evaluation

Defaults that a query falls back on. A loose mapping of keys to values is applied field by
field, and the settings are checked after each change.
-/

namespace OrderedRelations

structure Settings where
  /-- The cap on a hierarchy's levels when its own is zero; zero means none. -/
  maxDepth : Int
  maxWorkers : Int
  /-- Whether a gap equal to the tolerance stays in its streak. -/
  gapInclusive : Bool
  /-- The name of the column that streak ids go into. -/
  groupColumn : String
  /-- Whether columns of unsupported types are refused instead of dropped. -/
  strictTypes : Bool
  deriving DecidableEq

namespace Settings

def defaults : Settings := ⟨0, 1, true, "group_id", true⟩

/-- What all settings keep. -/
def Valid (s : Settings) : Prop := 0 ≤ s.maxDepth ∧ 1 ≤ s.maxWorkers ∧ s.groupColumn ≠ ""

def check (s : Settings) : Result Settings :=
  if s.maxDepth < 0 then .error (.settings (.negativeDepth s.maxDepth))
  else if s.maxWorkers < 1 then .error (.settings (.tooFewWorkers s.maxWorkers))
  else if s.groupColumn = "" then .error (.settings .emptyGroupColumn)
  else .ok s

/-- Reads a whole number from a value: texts are parsed and doubles lose their fraction. A list or
a record is refused by its spelling, as long as it has one. -/
def readWhole (key : String) (v : Value) : Result Int :=
  let refused : Failure := .settings (.notWhole key v)
  match v with
  | .bool b => .ok (if b then 1 else 0)
  | .int n => .ok n
  | .float (.number q) => .ok (Int.tdiv q.num q.den)
  | .float .negativeZero => .ok 0
  | .float (.infinity _) => .error .overflow
  | .text s => orElse refused (Text.wholeNumber? s)
  | v =>
    if v.isSpellable Text.digitLimit then .error refused
    else .error (.text (.unspellable Text.digitLimit))

/-- The words that switch something on. -/
def yesWords : List String := ["1", "true", "t", "yes", "y", "on"]

/-- Reads a switch from a value; what is neither a number nor a text is off. -/
def readSwitch : Value → Bool
  | .bool b => b
  | .int n => decide (n ≠ 0)
  | .float x => !x.isZero
  | .text s => yesWords.contains (String.ofList (Text.lower (Text.stripBlanks s.toList)))
  | _ => false

/-- The fields, in the order in which they are applied. -/
inductive Field where
  | maxDepth
  | maxWorkers
  | gapInclusive
  | groupColumn
  | strictTypes
  deriving DecidableEq

namespace Field

def all : List Field := [maxDepth, maxWorkers, gapInclusive, groupColumn, strictTypes]

def key : Field → String
  | maxDepth => "max_depth"
  | maxWorkers => "max_workers"
  | gapInclusive => "gap_inclusive"
  | groupColumn => "group_id_column"
  | strictTypes => "strict_schema"

/-- What a field holds. -/
abbrev Content : Field → Type
  | maxDepth => Int
  | maxWorkers => Int
  | gapInclusive => Bool
  | groupColumn => String
  | strictTypes => Bool

/-- Reads the content of a field from a value; only a text names the column. -/
def read : (field : Field) → Value → Option (Result field.Content)
  | maxDepth, v => some (readWhole maxDepth.key v)
  | maxWorkers, v => some (readWhole maxWorkers.key v)
  | gapInclusive, v => some (.ok (readSwitch v))
  | groupColumn, .text name => some (.ok name)
  | groupColumn, _ => none
  | strictTypes, v => some (.ok (readSwitch v))

end Field

/-- The settings with another content in a field. -/
def set (s : Settings) : (field : Field) → field.Content → Settings
  | .maxDepth, n => { s with maxDepth := n }
  | .maxWorkers, n => { s with maxWorkers := n }
  | .gapInclusive, b => { s with gapInclusive := b }
  | .groupColumn, name => { s with groupColumn := name }
  | .strictTypes, b => { s with strictTypes := b }

/-- Applies what a mapping says about a field. -/
def applyField (mapping : FieldList) (s : Settings) (field : Field) : Result Settings :=
  match (mapping.lookup field.key).bind field.read with
  | some content => do
    let content ← content
    check (s.set field content)
  | none => .ok s

/-- Applies a mapping field by field. -/
def apply (s : Settings) (mapping : FieldList) : Result Settings :=
  Field.all.foldlM (applyField mapping) s

/-- Applies a record; anything else changes nothing. -/
def applyValue (s : Settings) : Value → Result Settings
  | .record mapping => s.apply mapping
  | _ => .ok s

def keys : List String := Field.all.map Field.key

/-- The text of the variable that carries a field's key in capitals after a stem, when it is set
and not empty. -/
def Field.environmentText? (environment : List (String × String)) (stem : String) (field : Field) :
    Option String :=
  (environment.lookup (stem ++ String.ofList (field.key.toList.map Char.toUpper))).filter
    fun text => decide (text ≠ "")

/-- What the variables of an environment say, by the keys of the fields. -/
def environmentMapping (environment : List (String × String)) (stem : String) : FieldList :=
  Field.all.filterMap fun field =>
    (field.environmentText? environment stem).map fun text => (field.key, .text text)

/-- A number of a field, or the default where the field is missing. -/
def numberField (fields : FieldList) (key : String) (missing : Int) : Result Int :=
  match fields.lookup key with
  | none => .ok missing
  | some (.int n) => .ok n
  | some (.bool b) => .ok (if b then 1 else 0)
  | some _ => .error .mistyped

/-- The truth of a field, or the default where the field is missing. -/
def switchField (fields : FieldList) (key : String) (missing : Bool) : Bool :=
  ((fields.lookup key).map Value.truthy).getD missing

/-- The name in a field, or the default where the field is missing. -/
def nameField (fields : FieldList) (key missing : String) : Result String :=
  match fields.lookup key with
  | none => .ok missing
  | some (.text name) => .ok name
  | some v => if v.truthy then .error .mistyped else .ok ""

/-- Settings from a record of some of their fields and of nothing else. -/
def ofFields (fields : FieldList) : Result Settings :=
  if fields.any fun (key, _) => !keys.contains key then .error .mistyped
  else do
    let s := { defaults with
      gapInclusive := switchField fields "gap_inclusive" defaults.gapInclusive
      strictTypes := switchField fields "strict_schema" defaults.strictTypes }
    let depth ← numberField fields "max_depth" defaults.maxDepth
    let s ← check { s with maxDepth := depth }
    let workers ← numberField fields "max_workers" defaults.maxWorkers
    let s ← check { s with maxWorkers := workers }
    let name ← nameField fields "group_id_column" defaults.groupColumn
    check { s with groupColumn := name }

def ofEnvironment (base : Settings) (environment : List (String × String)) (stem : String) :
    Result Settings :=
  base.apply (environmentMapping environment stem)

end Settings
end OrderedRelations
