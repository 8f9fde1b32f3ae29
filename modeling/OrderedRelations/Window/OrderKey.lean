import OrderedRelations.Relation.Basic
import OrderedRelations.Text.Captures

/-!
# Order keys

An order key names a column, a direction and the place of nulls. The place is always settled:
left open, nulls come last in ascending and first in descending order. `OrderKey.parse` reads
the words `column [direction] [nulls place]`.
-/

namespace OrderedRelations

structure OrderKey where
  column : String
  direction : SortDirection
  nulls : NullPlacement
  deriving DecidableEq

namespace OrderKey

def descending (k : OrderKey) : Bool := decide (k.direction = .desc)

def nullsFirst (k : OrderKey) : Bool := decide (k.nulls = .first)

def defaultNulls : SortDirection → NullPlacement
  | .asc => .last
  | .desc => .first

/-- Settles direction and null placement; whatever counts as false leaves the direction
ascending, and a null leaves the placement to the direction. -/
def settle (direction nulls : Value) : Except TextFault (SortDirection × NullPlacement) := do
  let direction ← if direction.truthy then Label.readDirection direction else pure .asc
  let nulls ← if nulls.isNull then pure (defaultNulls direction) else Label.readNulls nulls
  pure (direction, nulls)

/-- A key from a column and spellings; a bad spelling refuses the whole record. -/
def make (column : String) (direction nulls : Value) : Result OrderKey :=
  match settle direction nulls with
  | .ok (direction, nulls) => .ok ⟨column, direction, nulls⟩
  | .error fault => .error (.record [.stated (.text fault)])

/-- The letter that a character stands for in a keyword: case does not matter, the long s is an
s, and neither dot of an i matters. -/
def keywordLetter (c : Char) : Char :=
  if c = 'ſ' then 's' else if c = 'ı' ∨ c = 'İ' then 'i' else c.toLower

def isKeyword (keyword : String) (word : List Char) : Bool :=
  decide (word.map keywordLetter = keyword.toList)

open Text (isBlank)
open Text.Captures (run optional andThen)

/-- One of some keywords, as it is spelled in a text. -/
def keyword (keywords : List String) (cs : List Char) : Text.Captures (List Char) :=
  (keywords.filter fun keyword => isKeyword keyword (cs.take keyword.length)).map fun keyword =>
    (cs.take keyword.length, cs.drop keyword.length)

/-- A direction behind blanks. -/
def directionWord (cs : List Char) : Text.Captures (List Char) :=
  andThen (run isBlank cs) fun _ cs => keyword ["asc", "desc", "ascending", "descending"] cs

/-- The place of nulls behind blanks and the word that announces it. -/
def placeWord (cs : List Char) : Text.Captures (List Char) :=
  andThen (run isBlank cs) fun _ cs =>
  andThen (keyword ["nulls"] cs) fun _ cs =>
  andThen (run isBlank cs) fun _ cs => keyword ["first", "last"] cs

/-- The words of a key as they are spelled. -/
structure Wording where
  column : List Char
  direction : Option (List Char)
  place : Option (List Char)

/-- The end of a text, at the latest behind a line end. -/
def finish (wording : Wording) (cs : List Char) : Text.Captures Wording :=
  if cs = [] ∨ cs = ['\n'] then [(wording, cs)] else []

/-- The readings of a text as the words of a key with blanks between and around them. The column may
be any word, and where it could end early the text behind it is read in another way. -/
def wordings (cs : List Char) : Text.Captures Wording :=
  andThen (optional (run isBlank) cs) fun _ cs =>
  andThen (run (!isBlank ·) cs) fun column cs =>
  andThen (optional directionWord cs) fun direction cs =>
  andThen (optional placeWord cs) fun place cs =>
  andThen (optional (run isBlank) cs) fun _ cs => finish ⟨column, direction, place⟩ cs

def wordValue : Option (List Char) → Value
  | some word => .text (String.ofList word)
  | none => .null

/-- The key that the first reading of a text gives. -/
def parse (s : String) : Result OrderKey :=
  match wordings s.toList with
  | (wording, _) :: _ =>
    make (String.ofList wording.column) (wordValue wording.direction) (wordValue wording.place)
  | [] => .error (.text (.unreadableOrderKey s))

/-- The words that `parse` reads back as the same key. -/
def print (k : OrderKey) : String :=
  k.column ++ " " ++ Labelled.label k.direction ++ " nulls " ++ Labelled.label k.nulls

/-- The flag in front of a sort key. Nulls and values have different ones, chosen with regard to
the direction, since a descending key is sorted backwards. -/
def sortFlag (k : OrderKey) (v : Value) : Bool :=
  if v.isNull then k.nullsFirst == k.descending else k.nullsFirst != k.descending

/-- Whether the sort key of one value is less than that of another: flags are compared first,
then values in their comparable form; values without an order are not told apart. -/
def sortsBefore (k : OrderKey) (a b : Value) : Bool :=
  if k.sortFlag a = k.sortFlag b then (a.less? b).getD false else k.sortFlag b

end OrderKey
end OrderedRelations
