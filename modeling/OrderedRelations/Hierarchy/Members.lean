import OrderedRelations.Hierarchy.Resolution
import OrderedRelations.Relation.RowTest

/-!
# Anchors and members

The ways to start and to grow a hierarchy. `joined` finds the rows of the base whose columns
equal those of a frontier row; a null never joins.
-/

namespace OrderedRelations.Hierarchy

/-- A member: the children of the rows of a frontier, found in a base relation. -/
abbrev Member := Relation → Relation → Result Produced

def anchorWhere (test : Row → Result Bool) (base : Relation) : Result Produced :=
  (base.filter test).map .relation

def valuesOf (row : Row) (columns : List String) : Result (List Value) :=
  columns.mapM row.get

/-- The rows of the base that join one row of the frontier. -/
def joinRow (parents children : List String) (base : Relation) (row : Row) :
    Result (List (List Value)) := do
  let key ← valuesOf row parents
  if key.any Value.isNull then pure []
  else Relation.keep (fun values => do
    let other ← valuesOf (base.row values) children
    pure (Value.sameKeys other key)) base.rows

def joinedMember (parents children : List String) : Member := fun frontier base => do
  let rows ← frontier.rows.mapM fun values => joinRow parents children base (frontier.row values)
  pure (.relation ⟨base.schema, rows.flatten⟩)

/-- The member that joins parent columns of the frontier with child columns of the base; both
lists must have the same length and not be empty. -/
def joined (parents children : List String) : Result Member :=
  if parents.length ≠ children.length ∨ parents = [] then
    .error (.hierarchy (.joinColumns parents children))
  else .ok (joinedMember parents children)

def wholeBase : Member := fun _ base => .ok (.relation base)

def baseColumns (names : List String) : Member := fun _ base =>
  (base.select names).map .relation

def baseWhere (test : Row → Result Bool) : Member := fun _ base =>
  (base.filter test).map .relation

def noChildren : Member := fun frontier _ => .ok (.relation (Relation.empty frontier.schema))

/-- The rows of one result followed by those of another; only relations can be joined so. -/
def Produced.followedBy : Produced → Produced → Result Produced
  | .relation r, .relation s => (r.concat s).map .relation
  | _, _ => .error .mistyped

def union : List Member → Member
  | [] => noChildren
  | m :: rest => fun frontier base => do
    let first ← m frontier base
    rest.foldlM (fun found m => do
      let more ← m frontier base
      Produced.followedBy found more) first

/-- A row with a number moved by a step, while it stays within a limit. -/
def stepRow (schema : Schema) (place : Nat) (step limit : Int) (row : List Value) :
    Result (Option (List Value)) := do
  let v ← orElse .mistyped ((row[place]?).bind Value.quantity?)
  let moved ← orElse .overflow (v.add? (.whole step))
  if moved.atMost (.whole limit) then
    (Relation.coerceRow schema (row.set place (.ofQuantity moved))).map some
  else pure none

/-- The rows of the frontier with a column moved by a step. -/
def stepped (column : String) (step limit : Int) : Member := fun frontier _ => do
  let i ← frontier.schema.indexOf column
  let rows ← frontier.rows.mapM (stepRow frontier.schema i step limit)
  pure (.relation ⟨frontier.schema, rows.filterMap id⟩)

def handsBack (v : Value) : Result Produced := .ok (.other v.kindName)

end OrderedRelations.Hierarchy
