import OrderedRelations.Digest.CanonicalJson
import OrderedRelations.Digest.Sha256

/-!
# Fingerprints of relations

A fingerprint is the digest of the canonical JSON of columns and rows. Dates and moments are
tagged, so neither is ever taken for a text of the same characters.
-/

namespace OrderedRelations.Fingerprint

/-- A cell in a form that JSON carries: dates and moments become tagged ISO texts. -/
def tagged : Value → Value
  | .datetime t => .record [("$datetime", .text (t.iso 'T'))]
  | .date d => .record [("$date", .text d.iso)]
  | v => v

/-- The tree of columns, as names with type labels, and rows. -/
def tree (columns : List (String × String)) (rows : List (List Value)) : Result JsonTree := do
  let rows ← rows.mapM fun row => JsonTree.ofValues (row.map tagged)
  pure (.object [
    ("columns", .array (columns.map fun (name, label) => .array [.text name, .text label])),
    ("rows", .array (rows.map .array))])

def preimage (columns : List (String × String)) (rows : List (List Value)) : Result String :=
  (tree columns rows).map JsonTree.canonical

def digest (columns : List (String × String)) (rows : List (List Value)) : Result String :=
  (preimage columns rows).map fun s => Sha256.hex s.toUTF8.toList

def columnLabels (s : Schema) : List (String × String) :=
  s.columns.map fun c => (c.name, Labelled.label c.type)

def ofRelation (r : Relation) : Result String := digest (columnLabels r.schema) r.rows

end OrderedRelations.Fingerprint
