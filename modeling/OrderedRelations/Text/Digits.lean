import OrderedRelations.Text.Blank

/-!
# Decimal digits and whole numbers

Digits of every script count as digits. A whole number may stand between white space, carry a
sign, and hold single underscores between its digits.
-/

namespace OrderedRelations.Text

/-- The zero of each run of ten decimal digits. -/
def digitZeros : List Nat := [
  0x30, 0x660, 0x6F0, 0x7C0, 0x966, 0x9E6, 0xA66, 0xAE6, 0xB66, 0xBE6,
  0xC66, 0xCE6, 0xD66, 0xDE6, 0xE50, 0xED0, 0xF20, 0x1040, 0x1090, 0x17E0,
  0x1810, 0x1946, 0x19D0, 0x1A80, 0x1A90, 0x1B50, 0x1BB0, 0x1C40, 0x1C50, 0xA620,
  0xA8D0, 0xA900, 0xA9D0, 0xA9F0, 0xAA50, 0xABF0, 0xFF10, 0x104A0, 0x10D30, 0x11066,
  0x110F0, 0x11136, 0x111D0, 0x112F0, 0x11450, 0x114D0, 0x11650, 0x116C0, 0x11730, 0x118E0,
  0x11950, 0x11C50, 0x11D50, 0x11DA0, 0x16A60, 0x16AC0, 0x16B50, 0x1D7CE, 0x1D7D8, 0x1D7E2,
  0x1D7EC, 0x1D7F6, 0x1E140, 0x1E2F0, 0x1E950, 0x1FBF0]

/-- The value of a decimal digit. -/
def digit? (c : Char) : Option Nat :=
  (digitZeros.find? fun z => decide (z ≤ c.toNat) && decide (c.toNat < z + 10)).map (c.toNat - ·)

/-- Reads digits onto the value of those before them; an underscore has a digit on either
side. -/
def digitsFrom? (value : Nat) : List Char → Option Nat
  | [] => some value
  | '_' :: c :: rest => (digit? c).bind fun d => digitsFrom? (10 * value + d) rest
  | c :: rest => (digit? c).bind fun d => digitsFrom? (10 * value + d) rest

def digits? : List Char → Option Nat
  | [] => none
  | c :: rest => (digit? c).bind fun d => digitsFrom? d rest

/-- The number of digits that a whole number in text may have at most. -/
def digitLimit : Nat := 4300

/-- Reads a whole number. -/
def wholeNumber? (s : String) : Option Int :=
  let cs := strip isWhiteSpace s.toList
  if digitLimit < (cs.filter fun c => (digit? c).isSome).length then none
  else match cs with
    | '-' :: rest => (digits? rest).map fun n => -(n : Int)
    | '+' :: rest => (digits? rest).map fun n => (n : Int)
    | cs => (digits? cs).map fun n => (n : Int)

end OrderedRelations.Text
