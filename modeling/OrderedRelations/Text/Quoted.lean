import OrderedRelations.Text.Printable

/-!
# Quoted text

A text between single quotes, or between double quotes when it holds a single quote and no
double one. Backslashes, the quote in use, line ends, tabs and unprintable characters are
escaped.
-/

namespace OrderedRelations.Text

def hexDigits (n : Nat) : List Char := Nat.toDigits 16 n

/-- Hexadecimal digits, with zeros in front up to a width. -/
def paddedHex (width n : Nat) : List Char :=
  List.replicate (width - (hexDigits n).length) '0' ++ hexDigits n

def escapeChar (quote c : Char) : List Char :=
  if c = quote ∨ c = '\\' then ['\\', c]
  else if c = '\n' then ['\\', 'n']
  else if c = '\r' then ['\\', 'r']
  else if c = '\t' then ['\\', 't']
  else if isPrintable c then [c]
  else if c.toNat < 0x100 then '\\' :: 'x' :: paddedHex 2 c.toNat
  else if c.toNat < 0x10000 then '\\' :: 'u' :: paddedHex 4 c.toNat
  else '\\' :: 'U' :: paddedHex 8 c.toNat

def quoteFor (cs : List Char) : Char :=
  if cs.contains '\'' && !cs.contains '"' then '"' else '\''

def quoted (s : String) : String :=
  let quote := quoteFor s.toList
  String.ofList (quote :: (s.toList.flatMap (escapeChar quote) ++ [quote]))

def quotedList (texts : List String) : String :=
  "[" ++ ", ".intercalate (texts.map quoted) ++ "]"

/-- A tuple of texts, each quoted; a single one is followed by a comma. -/
def quotedTuple : List String → String
  | [text] => "(" ++ quoted text ++ ",)"
  | texts => "(" ++ ", ".intercalate (texts.map quoted) ++ ")"

/-- Order of texts by code point. -/
def lessByCodePoint : List Char → List Char → Bool
  | _, [] => false
  | [], _ :: _ => true
  | a :: as, b :: bs => decide (a.toNat < b.toNat) || (a == b && lessByCodePoint as bs)

def less (s t : String) : Bool := lessByCodePoint s.toList t.toList

end OrderedRelations.Text
