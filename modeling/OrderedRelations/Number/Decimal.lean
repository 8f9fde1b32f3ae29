import OrderedRelations.Number.Binary64

/-!
# Decimal text of doubles

A double is written with the fewest significant digits that read back as the same double, the
nearest such decimal, a tie going to the even last digit. Reading takes any decimal to the
nearest double.
-/

namespace OrderedRelations

/-- The number `digits * 10 ^ exponent`. -/
structure Decimal where
  digits : Nat
  exponent : Int
  deriving DecidableEq

namespace Decimal

def powerOfTen (e : Int) : Rat :=
  if 0 ≤ e then mkRat (Nat.pow 10 e.toNat) 1 else mkRat 1 (Nat.pow 10 (-e).toNat)

def toRat (d : Decimal) : Rat := mkRat d.digits 1 * powerOfTen d.exponent

/-- The rationals that round to one double; the ends belong to it when `closed` holds. -/
structure Neighbourhood where
  low : Rat
  high : Rat
  closed : Bool

def Neighbourhood.contains (n : Neighbourhood) (q : Rat) : Bool :=
  if n.closed then decide (n.low ≤ q) && decide (q ≤ n.high)
  else decide (n.low < q) && decide (q < n.high)

/-- The neighbourhood of a positive double: half a unit on either side, a quarter of one below
a power of two. -/
def Neighbourhood.of (q : Rat) : Neighbourhood :=
  let e := Binary64.unitExponent .double q.num.natAbs q.den
  let units := Binary64.nearestUnits q.num.natAbs q.den e
  let below := if units = Nat.pow 2 52 ∧ -1074 < e then Binary64.scale 1 (e - 2)
    else Binary64.scale 1 (e - 1)
  { low := q - below, high := q + Binary64.scale 1 (e - 1), closed := decide (units % 2 = 0) }

/-- The number of digits before the point of a positive rational, negative for leading zeros
after it. -/
def integerDigits (q : Rat) : Int :=
  let guess := Int.fdiv (Binary64.leadingExponent q.num.natAbs q.den * 30103) 100000
  ([guess - 1, guess, guess + 1].find? fun k => decide (q < powerOfTen k)).getD (guess + 2)

/-- The best decimal with the given unit exponent inside the neighbourhood, if there is one:
only the two decimals next to the double can be. -/
def onGrid? (q : Rat) (n : Neighbourhood) (e : Int) : Option Decimal :=
  let unit := powerOfTen e
  let below := (q / unit).floor.toNat
  let lower : Decimal := ⟨below, e⟩
  let upper : Decimal := ⟨below + 1, e⟩
  match n.contains lower.toRat, n.contains upper.toRat with
  | false, false => none
  | true, false => some lower
  | false, true => some upper
  | true, true =>
    let down := q - lower.toRat
    let up := upper.toRat - q
    if down < up then some lower
    else if up < down then some upper
    else some (if below % 2 = 0 then lower else upper)

/-- The shortest decimal that rounds to a positive double; seventeen digits always suffice. -/
def shortest (q : Rat) : Decimal :=
  let n := Neighbourhood.of q
  let k := integerDigits q
  ((List.range 17).findSome? fun i => onGrid? q n (k - (i + 1 : Nat))).getD ⟨0, 0⟩

def significantDigits (n : Nat) : List Char :=
  ((Nat.toDigits 10 n).reverse.dropWhile (· == '0')).reverse

/-- An exponent after the letter: a sign and two digits or more. -/
def exponentText (e : Int) : List Char :=
  let digits := Nat.toDigits 10 e.natAbs
  (if e < 0 then '-' else '+') :: (if digits.length < 2 then '0' :: digits else digits)

/-- Writes digits with the point after the first `point` of them: positionally while the first
digit stands for 10⁻⁴ up to 10¹⁵, with an exponent beyond. -/
def layout (digits : List Char) (point : Int) : List Char :=
  if point ≤ -4 ∨ 16 < point then
    let tail := digits.drop 1
    digits.take 1 ++ (if tail.isEmpty then [] else '.' :: tail) ++ 'e' :: exponentText (point - 1)
  else if point ≤ 0 then
    '0' :: '.' :: List.replicate (-point).toNat '0' ++ digits
  else if (digits.length : Int) ≤ point then
    digits ++ List.replicate (point - digits.length).toNat '0' ++ ['.', '0']
  else digits.take point.toNat ++ '.' :: digits.drop point.toNat

def positiveText (q : Rat) : List Char :=
  let d := shortest q
  layout (significantDigits d.digits) (d.exponent + ((Nat.toDigits 10 d.digits).length : Nat))

def digitsValue (cs : List Char) : Nat :=
  cs.foldl (fun n c => 10 * n + (c.toNat - '0'.toNat)) 0

/-- Reads `digits`, with a point anywhere among them and an exponent behind them. -/
def read? (cs : List Char) : Option Decimal :=
  let whole := cs.takeWhile Char.isDigit
  let rest := cs.dropWhile Char.isDigit
  let (fraction, rest) := match rest with
    | '.' :: rest => (rest.takeWhile Char.isDigit, rest.dropWhile Char.isDigit)
    | rest => ([], rest)
  let digits := digitsValue (whole ++ fraction)
  if whole.isEmpty && fraction.isEmpty then none
  else match rest with
  | [] => some ⟨digits, -(fraction.length : Int)⟩
  | c :: rest =>
    if c != 'e' && c != 'E' then none
    else
      let (negative, rest) := match rest with
        | '-' :: rest => (true, rest)
        | '+' :: rest => (false, rest)
        | rest => (false, rest)
      if rest.isEmpty || !rest.all Char.isDigit then none
      else
        let e : Int := digitsValue rest
        some ⟨digits, (if negative then -e else e) - fraction.length⟩

/-- The nearest double; far beyond the range of doubles the power of ten is never built. -/
def toBinary64 (d : Decimal) : Binary64 :=
  let size := d.exponent + ((Nat.toDigits 10 d.digits).length : Nat)
  if d.digits = 0 ∨ size < -400 then Binary64.zero
  else if 400 < size then Binary64.infinity false
  else Binary64.ofRat d.toRat

end Decimal

namespace Binary64

/-- The shortest text that reads back as the same double. -/
def text : Binary64 → String
  | number q =>
    if q = 0 then "0.0"
    else if q < 0 then String.ofList ('-' :: Decimal.positiveText (-q))
    else String.ofList (Decimal.positiveText q)
  | negativeZero => "-0.0"
  | infinity true => "-inf"
  | infinity false => "inf"
  | nan _ => "nan"

/-- Reads a double: an optional sign before a decimal, `inf`, `infinity` or `nan`, the words in
any case. -/
def read? (s : String) : Option Binary64 :=
  let (negative, body) := match s.toList with
    | '-' :: rest => (true, rest)
    | '+' :: rest => (false, rest)
    | rest => (false, rest)
  let magnitude := match String.ofList (body.map Char.toLower) with
    | "inf" => some (infinity false)
    | "infinity" => some (infinity false)
    | "nan" => some undefined
    | _ => (Decimal.read? body).map Decimal.toBinary64
  magnitude.map fun x => if negative then x.neg else x

end Binary64
end OrderedRelations
