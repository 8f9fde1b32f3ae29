import OrderedRelations.Settings.Basic
import OrderedRelations.Settings.Toml
import OrderedRelations.Text.Pieces

/-!
# Settings from files and the environment

Variables of the environment win over the file, the file over the defaults. An application has
a file of its own and a table in a file that it shares with others; the first configuration
that is not empty counts.
-/

namespace OrderedRelations

/-- Where an application keeps its settings. -/
structure SettingsSources where
  /-- The application's own file. -/
  ownFile : String
  /-- The table of the own file that holds the settings, when it is there. -/
  ownTable : String
  /-- The file shared with others. -/
  sharedFile : String
  /-- The tables of the shared file that lead to the settings. -/
  sharedTable : String × String
  /-- What the names of the variables start with. -/
  variableStem : String

def SettingsSources.standard : SettingsSources :=
  ⟨"relq.toml", "query", "pyproject.toml", ("tool", "relq"), "RELQ_"⟩

namespace Settings

/-- The configuration that a document of the given name holds. -/
def select (sources : SettingsSources) (file : String) (document : FieldList) :
    Option Value :=
  if file = sources.sharedFile then
    match document.lookup sources.sharedTable.1 with
    | none => some (.record [])
    | some (.record tables) =>
      some ((tables.lookup sources.sharedTable.2).getD (.record []))
    | some _ => none
  else match document.lookup sources.ownTable with
    | some (.record table) => some (.record table)
    | _ => some (.record document)

def nonempty (configuration : Option Value) : Bool :=
  match configuration with
  | some v => v.truthy
  | none => false

/-- The path without empty and idle steps; one from the root stays so. -/
def normalPath (path : String) : String :=
  let steps := (Text.pieces '/' path.toList).filter fun step =>
    decide (step ≠ []) && decide (step ≠ ['.'])
  let relative := ['/'].intercalate steps
  String.ofList (if path.toList.head? = some '/' then '/' :: relative else relative)

/-- The last step of a path. -/
def fileName (path : String) : String :=
  String.ofList ((Text.pieces '/' path.toList).getLastD [])

/-- Reads a document, whose whole numbers must not have more digits than those of a text may. -/
def readDocument (text : String) : Result FieldList :=
  match Toml.parse Text.digitLimit text with
  | .ok document => .ok document
  | .error .malformed => .error (.settings .malformedFile)
  | .error (.tooManyDigits digits) => .error (.text (.tooManyDigits digits Text.digitLimit))

/-- The configuration of the first file that has one, read in the given order; files after it
are not looked at. -/
def choose (sources : SettingsSources) (files : List (String × String))
    (found : Option Value) : List String → Result (Option Value)
  | [] => .ok found
  | file :: rest =>
    match files.lookup (normalPath file) with
    | none => choose sources files found rest
    | some text => do
      let document ← readDocument text
      let configuration := select sources (fileName (normalPath file)) document
      if nonempty configuration then pure configuration
      else choose sources files configuration rest

/-- The files to look at: the given one alone, or both in order. -/
def candidates (sources : SettingsSources) : Option String → List String
  | some path => [path]
  | none => [sources.ownFile, sources.sharedFile]

def ofFiles (sources : SettingsSources) (files : List (String × String))
    (path : Option String) : Result Settings := do
  let configuration ← choose sources files none (candidates sources path)
  match configuration with
  | some v => defaults.applyValue v
  | none => pure defaults

/-- Settings from files, then from the environment. -/
def load (sources : SettingsSources) (files environment : List (String × String))
    (path : Option String) : Result Settings := do
  let s ← ofFiles sources files path
  s.ofEnvironment environment sources.variableStem

end Settings
end OrderedRelations
