import OrderedRelations.Relation.Basic

/-!
# Canonical JSON

One text for each tree: no blanks, keys sorted by code point, and no escapes but for the quote,
the backslash and the control characters below the space.
-/

namespace OrderedRelations

inductive JsonTree where
  | null
  | bool (b : Bool)
  | int (n : Int)
  | float (x : Binary64)
  | text (s : String)
  | array (items : List JsonTree)
  | object (fields : List (String × JsonTree))

namespace JsonTree

def escapeChar (c : Char) : List Char :=
  if c = '"' then ['\\', '"']
  else if c = '\\' then ['\\', '\\']
  else if c = '\n' then ['\\', 'n']
  else if c = '\r' then ['\\', 'r']
  else if c = '\t' then ['\\', 't']
  else if c = Char.ofNat 8 then ['\\', 'b']
  else if c = Char.ofNat 12 then ['\\', 'f']
  else if c.toNat < 0x20 then '\\' :: 'u' :: Text.paddedHex 4 c.toNat
  else [c]

def quote (s : String) : List Char := '"' :: (s.toList.flatMap escapeChar ++ ['"'])

def floatChars : Binary64 → List Char
  | .nan _ => "NaN".toList
  | .infinity true => "-Infinity".toList
  | .infinity false => "Infinity".toList
  | x => x.text.toList

def commaSeparated : List (List Char) → List Char
  | [] => []
  | [item] => item
  | item :: rest => item ++ ',' :: commaSeparated rest

def sortFields (fields : List (String × List Char)) : List (String × List Char) :=
  fields.mergeSort fun a b => !Text.less b.1 a.1

def writeField (field : String × List Char) : List Char := quote field.1 ++ ':' :: field.2

mutual

def write : JsonTree → List Char
  | null => "null".toList
  | bool true => "true".toList
  | bool false => "false".toList
  | int n => (toString n).toList
  | float x => floatChars x
  | text s => quote s
  | array items => '[' :: (commaSeparated (writeAll items) ++ [']'])
  | object fields =>
    Char.ofNat 0x7B ::
      (commaSeparated ((sortFields (writeFields fields)).map writeField) ++ [Char.ofNat 0x7D])

def writeAll : List JsonTree → List (List Char)
  | [] => []
  | t :: rest => t.write :: writeAll rest

def writeFields : List (String × JsonTree) → List (String × List Char)
  | [] => []
  | (name, t) :: rest => (name, t.write) :: writeFields rest

end

def canonical (t : JsonTree) : String := String.ofList t.write

mutual

/-- The tree of a value; dates, moments, times and durations have none. -/
def ofValue : Value → Result JsonTree
  | .null => .ok null
  | .bool b => .ok (bool b)
  | .int n => .ok (int n)
  | .float x => .ok (float x)
  | .text s => .ok (text s)
  | .date _ => .error .mistyped
  | .datetime _ => .error .mistyped
  | .time _ => .error .mistyped
  | .duration _ => .error .mistyped
  | .list items => (ofValues items).map array
  | .record fields => (ofFields fields).map object

def ofValues : List Value → Result (List JsonTree)
  | [] => .ok []
  | v :: rest => do
    let t ← ofValue v
    let rest ← ofValues rest
    pure (t :: rest)

def ofFields : FieldList → Result (List (String × JsonTree))
  | [] => .ok []
  | (name, v) :: rest => do
    let t ← ofValue v
    let rest ← ofFields rest
    pure ((name, t) :: rest)

end
end JsonTree
end OrderedRelations
