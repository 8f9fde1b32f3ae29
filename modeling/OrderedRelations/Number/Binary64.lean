/-!
# Doubles as exact rationals

A finite double is the rational number it stands for, so sums and comparisons lose nothing.
Rounding goes to the nearest number of a binary format, a tie to the even neighbour:
`Binary64.ofRat?` has 53 significant binary digits with a least digit of 2⁻¹⁰⁷⁴. What is not a
number carries a payload, which tells values of different origin apart and takes no part in
arithmetic.
-/

namespace OrderedRelations

/-- A binary format: significant digits, the exponent of the least digit, and the exponent of
the least power of two that is too large. -/
structure BinaryFormat where
  digits : Nat
  leastExponent : Int
  limitExponent : Int

namespace BinaryFormat

def double : BinaryFormat := ⟨53, -1074, 1024⟩

def single : BinaryFormat := ⟨24, -149, 128⟩

end BinaryFormat

/-- A double: a rational number, zero with a minus sign, an infinity, or not a number. -/
inductive Binary64 where
  | number (value : Rat)
  | negativeZero
  | infinity (negative : Bool)
  | nan (payload : Nat)
  deriving DecidableEq

namespace Binary64

/-- The whole number nearest to `num / den`, a tie going to the even one. -/
def roundHalfEven (num den : Nat) : Nat :=
  let quotient := num / den
  let remainder := num % den
  if 2 * remainder < den then quotient
  else if den < 2 * remainder then quotient + 1
  else quotient + quotient % 2

def belowPowerOfTwo (num den : Nat) (e : Int) : Bool :=
  if 0 ≤ e then decide (num < den * Nat.pow 2 e.toNat)
  else decide (num * Nat.pow 2 (-e).toNat < den)

/-- The greatest `e` with `2 ^ e ≤ num / den`, for a positive quotient. -/
def leadingExponent (num den : Nat) : Int :=
  let guess : Int := (Nat.log2 num : Int) - (Nat.log2 den : Int)
  if belowPowerOfTwo num den guess then guess - 1 else guess

/-- The exponent of the least significant digit that a number near `num / den` has. -/
def unitExponent (format : BinaryFormat) (num den : Nat) : Int :=
  max (leadingExponent num den - format.digits + 1) format.leastExponent

/-- How many units of `2 ^ e` are nearest to `num / den`. -/
def nearestUnits (num den : Nat) (e : Int) : Nat :=
  if 0 ≤ e then roundHalfEven num (den * Nat.pow 2 e.toNat)
  else roundHalfEven (num * Nat.pow 2 (-e).toNat) den

def scale (units : Nat) (e : Int) : Rat :=
  if 0 ≤ e then mkRat (units * Nat.pow 2 e.toNat) 1
  else mkRat units (Nat.pow 2 (-e).toNat)

/-- Rounds the magnitude `num / den`, without an upper limit. -/
def roundMagnitude (format : BinaryFormat) (num den : Nat) : Rat :=
  if num = 0 then 0
  else scale (nearestUnits num den (unitExponent format num den)) (unitExponent format num den)

/-- The number of a format nearest to a rational, or nothing where the rational is out of
range. A negative rational that rounds to zero keeps its sign. -/
def nearest? (format : BinaryFormat) (q : Rat) : Option Binary64 :=
  let size := roundMagnitude format q.num.natAbs q.den
  if scale 1 format.limitExponent ≤ size then none
  else if q.num < 0 then
    some (if size = 0 then negativeZero else number (-size))
  else some (number size)

def ofRat? (q : Rat) : Option Binary64 := nearest? .double q

/-- The double nearest to a rational, an infinity where the rational is out of range. -/
def ofRat (q : Rat) : Binary64 :=
  (ofRat? q).getD (infinity (decide (q.num < 0)))

/-- The double nearest to a whole number, or nothing where it is out of range. -/
def ofInt? (n : Int) : Option Binary64 :=
  ofRat? (mkRat n 1)

def zero : Binary64 := number 0

/-- What computations without a numeric answer give. -/
def undefined : Binary64 := nan 0

def toRat? : Binary64 → Option Rat
  | number q => some q
  | negativeZero => some 0
  | infinity _ => none
  | nan _ => none

def isNan : Binary64 → Bool
  | nan _ => true
  | _ => false

def isZero : Binary64 → Bool
  | number q => decide (q = 0)
  | negativeZero => true
  | _ => false

/-- Whether the sign is a minus; not a number has none. -/
def isNegative : Binary64 → Bool
  | number q => decide (q < 0)
  | negativeZero => true
  | infinity negative => negative
  | nan _ => false

def neg : Binary64 → Binary64
  | number q => if q = 0 then negativeZero else number (-q)
  | negativeZero => zero
  | infinity negative => infinity (!negative)
  | nan payload => nan payload

def abs (x : Binary64) : Binary64 :=
  if x.isNegative then x.neg else x

def add : Binary64 → Binary64 → Binary64
  | nan payload, _ => nan payload
  | _, nan payload => nan payload
  | infinity m, infinity n => if m = n then infinity m else undefined
  | infinity m, _ => infinity m
  | _, infinity n => infinity n
  | negativeZero, negativeZero => negativeZero
  | negativeZero, number q => number q
  | number q, negativeZero => number q
  | number p, number q => ofRat (p + q)

def sub (x y : Binary64) : Binary64 := x.add y.neg

def signedZero (negative : Bool) : Binary64 :=
  if negative then negativeZero else zero

def mul (x y : Binary64) : Binary64 :=
  let negative := x.isNegative != y.isNegative
  match x.toRat?, y.toRat? with
  | some p, some q => if p * q = 0 then signedZero negative else ofRat (p * q)
  | _, _ =>
    if x.isNan || y.isNan || x.isZero || y.isZero then undefined else infinity negative

/-- The double with the value that single precision gives this one. -/
def toSingle : Binary64 → Binary64
  | number q => (nearest? .single q).getD (infinity (decide (q < 0)))
  | x => x

/-- A place on the extended line: below, among or above the rationals. Not a number has no
place, so it is neither less than, equal to nor greater than anything. -/
def place? : Binary64 → Option (Int × Rat)
  | number q => some (0, q)
  | negativeZero => some (0, 0)
  | infinity true => some (-1, 0)
  | infinity false => some (1, 0)
  | nan _ => none

end Binary64
end OrderedRelations
