import OrderedRelations.Number.Decimal
import OrderedRelations.Text.Blank

/-!
# Numbers in the text of a field

A whole number may stand between white space, carry a sign, have zeros in front and a fraction of
zeros behind, and hold single underscores between its digits. A double is read as `Binary64.read?`
does, between white space or else without its underscores.
-/

namespace OrderedRelations.NumberText

/-- The most digits that a whole number may have once it is stripped. -/
def digitLimit : Nat := 4300

/-- Takes the plus sign off; no minus sign may follow it. -/
def dropPlus? : List Char → Option (List Char)
  | '+' :: '-' :: _ => none
  | '+' :: rest => some rest
  | cs => some cs

def startsNumber (c : Char) : Bool := c == '-' || (c.isDigit && c != '0')

/-- Takes off what follows a zero up to the first other digit or sign. The last character stays
where there is none, and so does the one in front of a point. -/
def dropZerosAfter? (last : Char) : List Char → Option (List Char)
  | [] => some [last]
  | c :: rest =>
    if c = '0' ∨ c = '_' then dropZerosAfter? c rest
    else if startsNumber c then some (c :: rest)
    else if c = '.' then some (last :: c :: rest)
    else none

/-- Takes zeros off the front of a number, with underscores among them. -/
def dropZeros? : List Char → Option (List Char)
  | [] => none
  | c :: rest =>
    if c = '0' then dropZerosAfter? c rest
    else if startsNumber c then some (c :: rest)
    else none

/-- Takes off a point with zeros behind it, of which there must be one. -/
def dropZeroFraction (cs : List Char) : List Char :=
  let zeros := cs.reverse.takeWhile (· == '0')
  match cs.reverse.dropWhile (· == '0') with
  | '.' :: rest => if zeros.isEmpty then cs else rest.reverse
  | _ => cs

/-- Whether underscores stand one at a time and only between other characters. -/
def separates : List Char → Bool
  | [] => true
  | ['_'] => false
  | '_' :: '_' :: _ => false
  | _ :: rest => separates rest

def dropUnderscores? (cs : List Char) : Option (List Char) :=
  if separates cs && cs.head? != some '_' then some (cs.filter (· != '_')) else none

/-- Reads digits within the limit, without a zero in front unless zero is all there is. -/
def digits? : List Char → Option Nat
  | [] => none
  | '0' :: _ :: _ => none
  | cs =>
    if cs.all Char.isDigit ∧ cs.length ≤ digitLimit then some (Decimal.digitsValue cs) else none

/-- Takes a minus sign off, and tells whether there was one. -/
def splitMinus : List Char → Bool × List Char
  | '-' :: rest => (true, rest)
  | cs => (false, cs)

def stripped? (cs : List Char) : Option (List Char) :=
  (dropZeros? cs).map fun cs =>
    let cs := dropZeroFraction cs
    (dropUnderscores? cs).getD cs

/-- Reads a whole number. The minus sign may also stand behind zeros, though not twice. -/
def whole? (s : String) : Option Int := do
  let cs ← dropPlus? (Text.strip Text.isWhiteSpace s.toList)
  let (negative, cs) := splitMinus cs
  let cs ← stripped? cs
  let (inner, cs) := splitMinus cs
  let n ← digits? cs
  if negative && inner then none else pure (if negative || inner then -(n : Int) else n)

def real? (s : String) : Option Binary64 :=
  (Binary64.read? (String.ofList (Text.strip Text.isWhiteSpace s.toList))).or <|
    (dropUnderscores? s.toList).bind fun cs => Binary64.read? (String.ofList cs)

end OrderedRelations.NumberText
