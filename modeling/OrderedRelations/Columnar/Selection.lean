import OrderedRelations.Failure
import OrderedRelations.Text.PatternReading

/-!
# Selections of columns

A selection names columns of a table. An asterisk stands for all of them, and a name from `^` to
`$` is a pattern that stands for the columns it is found in; any other name stands for itself and
must be there.
-/

namespace OrderedRelations.Selection

def isPattern (name : String) : Bool :=
  name.toList.head? == some '^' && name.toList.getLast? == some '$'

/-- The columns that a name stands for, in the order of the table. Columns to leave out are left
out where the name does not spell them. -/
def columnsFor (names leftOut : List String) (name : String) : Result (List String) :=
  let others := names.filter fun n => !leftOut.contains n
  if name = "*" then .ok others
  else if isPattern name then
    (orElse .columnar (Text.Pattern.ofText? name)).map fun p => others.filter p.isFoundIn
  else if names.contains name then .ok [name]
  else .error .columnar

def columns (names leftOut wanted : List String) : Result (List String) :=
  (wanted.mapM (columnsFor names leftOut)).map List.flatten

/-- The columns that several names stand for, each of which may come up once only. -/
def distinct (names wanted : List String) : Result (List String) := do
  let chosen ← columns names [] wanted
  if decide chosen.Nodup then pure chosen else throw .columnar

end OrderedRelations.Selection
