import OrderedRelations.Relation.Basic

/-!
# Resolving hierarchies

A hierarchy starts from the rows of an anchor and grows level by level: a member gives the
children of each row of the frontier, in frontier order. Each row carries the chain of identity
keys from its anchor row to itself, and a child whose key is on its parent's chain is dropped.
Growing stops at the first empty level, or fails when a cap on the number of levels is met
before.
-/

namespace OrderedRelations

/-- What an anchor or a member hands back: a relation, or something of another kind. -/
inductive Produced where
  | relation (r : Relation)
  | other (kindName : String)

/-- How a hierarchy grows. A cap of zero leaves the depth open. -/
structure HierarchySpec where
  anchor : Relation → Result Produced
  member : Relation → Relation → Result Produced
  cycleKey : List String
  maxDepth : Nat
  depthColumn : Option String
  pathColumn : Option String

/-- A row with the identity keys of its ancestors, its own the last. -/
structure Lineage where
  row : List Value
  chain : List (List Value)

structure Resolution where
  relation : Relation
  levelSizes : List Nat

namespace Resolution

def iterations (r : Resolution) : Nat := r.levelSizes.length - 1

end Resolution

namespace Hierarchy

def checkOutput (schema : Schema) : Option String → Result Unit
  | some name =>
    if schema.contains name then .error (.hierarchy (.outputExists name)) else .ok ()
  | none => .ok ()

def checkAnchor (spec : HierarchySpec) : Produced → Result Relation
  | .other kindName => .error (.hierarchy (.anchorKind kindName))
  | .relation seed => do
    let missing := spec.cycleKey.filter fun name => !seed.schema.contains name
    if !missing.isEmpty then
      throw (.hierarchy (.unknownCycleKeys missing seed.names))
    checkOutput seed.schema spec.depthColumn
    checkOutput seed.schema spec.pathColumn
    pure seed

def checkMember (schema : Schema) : Produced → Result (List (List Value))
  | .other kindName => .error (.hierarchy (.memberKind kindName))
  | .relation out =>
    if out.schema = schema then .ok out.rows
    else .error (.hierarchy (.memberSchema out.names schema.names))

def keyOf (places : List Nat) (row : List Value) : List Value :=
  places.map fun i => row[i]?.getD .null

def onChain (chain : List (List Value)) (key : List Value) : Bool :=
  chain.any fun ancestor => Value.sameKeys ancestor key

/-- The children that are not on their parent's chain. -/
def adopt (places : List Nat) (parent : Lineage) (children : List (List Value)) :
    List Lineage :=
  (children.filter fun row => !onChain parent.chain (keyOf places row)).map fun row =>
    ⟨row, parent.chain ++ [keyOf places row]⟩

def expand (spec : HierarchySpec) (base : Relation) (schema : Schema) (places : List Nat)
    (parent : Lineage) : Result (List Lineage) := do
  let out ← spec.member ⟨schema, [parent.row]⟩ base
  let children ← checkMember schema out
  pure (adopt places parent children)

def nextLevel (spec : HierarchySpec) (base : Relation) (schema : Schema) (places : List Nat)
    (frontier : List Lineage) : Result (List Lineage) :=
  (frontier.mapM (expand spec base schema places)).map List.flatten

/-- Grows from a frontier until a level is empty, for at most `fuel` levels, and gives the
levels that are not empty, together with what is still pending. -/
def grow (next : List Lineage → Result (List Lineage)) :
    (fuel : Nat) → (frontier : List Lineage) → Result (List (List Lineage) × List Lineage)
  | _, [] => .ok ([], [])
  | 0, frontier => .ok ([frontier], frontier)
  | fuel + 1, frontier => do
    let level ← next frontier
    let (levels, pending) ← grow next fuel level
    pure (frontier :: levels, pending)

/-- The levels of a hierarchy. Without a cap, growing further than `fuel` levels is given up as
unfinished. -/
def levels (next : List Lineage → Result (List Lineage)) (cap fuel : Nat)
    (seed : List Lineage) : Result (List (List Lineage)) := do
  let (levels, pending) ← grow next (if cap = 0 then fuel else cap) seed
  if pending.isEmpty then pure levels
  else if cap = 0 then throw .unfinished
  else throw (.depthLimit cap pending.length)

def keyText (key : List Value) : String :=
  ",".intercalate (key.map fun v => if v.isNull then "" else v.plain)

/-- The keys of a chain, from the anchor on. -/
def pathText (chain : List (List Value)) : String := "/".intercalate (chain.map keyText)

/-- The depth of each row, level by level. -/
def depths (levels : List (List Lineage)) : List Value :=
  (levels.zipIdx).flatMap fun (level, depth) => level.map fun _ => .int depth

def paths (levels : List (List Lineage)) : List Value :=
  levels.flatten.map fun l => .text (pathText l.chain)

def withOptional (r : Relation) (name : Option String) (type : ColumnType)
    (values : List Value) : Result Relation :=
  match name with
  | some name => r.withColumn name type values
  | none => .ok r

/-- Resolves a hierarchy over a base relation. The cap is the specification's, or the given
default where that leaves the depth open. -/
def resolve (fuel : Nat) (base : Relation) (spec : HierarchySpec) (defaultDepth : Nat) :
    Result Resolution := do
  let out ← spec.anchor base
  let seed ← checkAnchor spec out
  let places ← spec.cycleKey.mapM seed.schema.indexOf
  let start := seed.rows.map fun row => (⟨row, [keyOf places row]⟩ : Lineage)
  let cap := if spec.maxDepth = 0 then defaultDepth else spec.maxDepth
  let levels ← levels (nextLevel spec base seed.schema places) cap fuel start
  let rows := levels.flatten.map Lineage.row
  let r ← withOptional ⟨seed.schema, rows⟩ spec.depthColumn .integer (depths levels)
  let r ← withOptional r spec.pathColumn .text (paths levels)
  pure ⟨r, levels.map List.length⟩

end Hierarchy
end OrderedRelations
