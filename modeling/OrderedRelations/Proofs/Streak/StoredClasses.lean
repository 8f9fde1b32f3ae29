import OrderedRelations.Proofs.Columnar.StoredRelation
import OrderedRelations.Proofs.Streak.FirstAppearances
import OrderedRelations.Proofs.Streak.NumberedRuns
import OrderedRelations.Proofs.Streak.StepRuns

/-!
# Classes of stored rows

Where stored cells are equal exactly where the cells are, the groups of a table are the classes of
rows that share a key, and in every class some row has the most extreme cell of a measured column.
-/

namespace OrderedRelations

namespace Value

variable {type : ColumnType} {v w : Value}

end Value

namespace Streak

section Rows

variable {g : Relation} {name : String} {place : ℕ}

end Rows

/-- What a summary by keys needs: keys of types whose stored forms tell them apart, one of them the
id, under names that stand for themselves and are not those of the summary's own columns, and a
measured column of whole numbers or days that has a value wherever there is an id. -/
structure Summarizable (g : Relation) (keys : List String) (group column : String)
    (type : ColumnType) : Prop where
  wellFormed : g.WellFormed
  storable : g.Storable
  size : g.size < 2 ^ 63
  grouped : group ∈ keys
  known : ∀ name ∈ keys, name ∈ g.names
  exact : ∀ name ∈ keys, g.schema.typeOf name ≠ .ok .float
  distinct : (keys ++ [lengthColumn, startColumn, endColumn]).Nodup
  plain : ∀ name ∈ keys, Selection.Plain name
  typeOf : g.schema.typeOf column = .ok type
  whole : type = .integer ∨ type = .date
  plainColumn : Selection.Plain column
  present : ∀ i ∈ presentRows g group, (g.cell column i).isNull = false

/-- The rows with an id that come first under their key. -/
def openers (g : Relation) (keys : List String) (group : String) : List ℕ :=
  (presentRows g group).eraseDupsBy (sharing (g.cells keys))

/-- The rows with an id that share the key of a row. -/
def sharers (g : Relation) (keys : List String) (group : String) (f : ℕ) : List ℕ :=
  (presentRows g group).filter (sharing (g.cells keys) f)

namespace Summarizable

variable {g : Relation} {keys : List String} {group column name : String} {type : ColumnType}

end Summarizable
end Streak
end OrderedRelations
