import OrderedRelations.Hierarchy.Members
import OrderedRelations.Record.Specs
import OrderedRelations.Settings.Files
import OrderedRelations.Streak.Summary

/-!
# Queries

A query resolves a hierarchy, when there is one, and then appends window columns one by one, so
later windows may use the columns of earlier ones. Streaks are grouped and summarized by
themselves.
-/

namespace OrderedRelations.Query

/-- Resolves a hierarchy with the depth of the settings as the default cap. -/
def resolve (fuel : Nat) (r : Relation) (spec : HierarchySpec) (settings : Settings) :
    Result Resolution :=
  Hierarchy.resolve fuel r spec settings.maxDepth.toNat

def resolveIfAny (fuel : Nat) (r : Relation) (hierarchy : Option HierarchySpec)
    (settings : Settings) : Result Relation :=
  match hierarchy with
  | some spec => (resolve fuel r spec settings).map Resolution.relation
  | none => .ok r

def evaluate (fuel : Nat) (r : Relation) (hierarchy : Option HierarchySpec)
    (windows : List WindowSpec) (settings : Settings) : Result Relation := do
  let resolved ← resolveIfAny fuel r hierarchy settings
  windows.foldlM Window.append resolved

/-- One streak id for each row, with partition columns and order as they were written. -/
def streakIds (r : Relation) (partitionBy orderBy : Value) (criterion : StreakCriterion)
    (settings : Settings) : Result (List Value) := do
  let (partitionBy, orderBy) ← WindowSpec.shapeOfValues partitionBy orderBy
  Streak.ids r partitionBy orderBy criterion settings.gapInclusive

def nameOr (name : Option String) (fallback : String) : String :=
  match name with
  | some s => if s = "" then fallback else s
  | none => fallback

/-- Appends the streak ids under the given name, or the one of the settings. -/
def groupStreaks (r : Relation) (partitionBy orderBy : Value) (criterion : StreakCriterion)
    (settings : Settings) (outputColumn : Option String) : Result Relation := do
  let name := nameOr outputColumn settings.groupColumn
  if r.schema.contains name then throw (.schema (.outputExists name))
  let ids ← streakIds r partitionBy orderBy criterion settings
  r.withColumn name .integer ids

/-- Summarizes streaks by the given id column, or the one of the settings. -/
def summarizeStreaks (r : Relation) (partitionBy : List String) (groupColumn : Option String)
    (orderColumn : Option String) (settings : Settings) (payload : Nat) : Result Relation :=
  Streak.summarize r partitionBy (nameOr groupColumn settings.groupColumn) orderColumn payload

end OrderedRelations.Query
