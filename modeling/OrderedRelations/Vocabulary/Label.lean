import OrderedRelations.Failure
import OrderedRelations.Text.Blank
import OrderedRelations.Text.Lowercase
import OrderedRelations.Text.Pieces

/-!
# Reading labels

A label may be spelled in any case, with blanks around it and with runs of blanks and hyphens
in place of underscores. `token` is the normal form of a spelling.
-/

namespace OrderedRelations

namespace Label

def isWordChar (c : Char) : Bool := c.isLower || c.isDigit

/-- The words between underscores; adjacent underscores have an empty word between them. -/
def words (cs : List Char) : List (List Char) := Text.pieces '_' cs

def dropFinalNewline (cs : List Char) : List Char :=
  if cs.getLast? = some '\n' then cs.dropLast else cs

/-- Words of lower-case letters and digits, joined by single underscores. A line end at the
very end is overlooked. -/
def isLowerSnake (s : String) : Bool :=
  (words (dropFinalNewline s.toList)).all fun word => !word.isEmpty && word.all isWordChar

/-- Refuses a text that is not lower snake, and everything that is not a text. -/
def requireLowerSnake (subject : String) (v : Value) : Except TextFault Unit :=
  match v with
  | .text s => if isLowerSnake s then .ok () else .error (.notLowerSnake subject v)
  | _ => .error (.notLowerSnake subject v)

def isGap (c : Char) : Bool := Text.isBlank c || c == '-'

/-- Puts one underscore for each run of blanks and hyphens; `inGap` tells that the run has been
entered already. -/
def joinGaps (inGap : Bool) : List Char → List Char
  | [] => []
  | c :: rest =>
    if isGap c then (if inGap then joinGaps true rest else '_' :: joinGaps true rest)
    else c :: joinGaps false rest

def token (s : String) : String :=
  String.ofList (Text.lower (joinGaps false (Text.stripBlanks s.toList)))

/-- Reads a member of a vocabulary from any value, through its plain spelling. -/
def read (α : Type) [Labelled α] (spelling : Value) : Except TextFault α := do
  let t := token spelling.plain
  requireLowerSnake (Labelled.subject α) (.text t)
  match ofLabel? α t with
  | some member => pure member
  | none => throw (.notAmong (Labelled.subject α) (labels α) spelling)

/-- The members of a vocabulary, each in capitals with its label. -/
def memberNames (α : Type) [Labelled α] : List (String × String) :=
  (labels α).map fun l => (String.ofList (l.toList.map Char.toUpper), l)

/-- Finds the first member whose label is not made of lower-case words. -/
def requireLowerSnakeLabels (vocabulary : String) (members : List (String × String)) :
    Result Unit :=
  match members.find? fun (_, l) => !isLowerSnake l with
  | some (member, l) => .error (.mislabelled vocabulary member l)
  | none => .ok ()

def shortDirection (t : String) : String :=
  if t = "ascending" then "asc" else if t = "descending" then "desc" else t

def readDirection : Value → Except TextFault SortDirection
  | .text s => read SortDirection (.text (shortDirection (token s)))
  | v => read SortDirection v

def withoutNulls (t : String) : String :=
  match t.toList with
  | 'n' :: 'u' :: 'l' :: 'l' :: 's' :: '_' :: rest => String.ofList rest
  | _ => t

def readNulls : Value → Except TextFault NullPlacement
  | .text s => read NullPlacement (.text (withoutNulls (token s)))
  | v => read NullPlacement v

end Label
end OrderedRelations
