import OrderedRelations.Number.Binary64

/-!
# Whole and real quantities

The numbers that order coordinates and offsets are made of. Whole numbers have no bound. A
whole number that meets a double becomes a double first, which fails when it is out of range;
comparisons are exact on both kinds.
-/

namespace OrderedRelations

/-- A number: whole without bound, or a double. -/
inductive Quantity where
  | whole (n : Int)
  | real (x : Binary64)
  deriving DecidableEq

namespace Quantity

def place? : Quantity → Option (Int × Rat)
  | whole n => some (0, mkRat n 1)
  | real x => x.place?

def placeLess (a b : Int × Rat) : Bool :=
  decide (a.1 < b.1) || (decide (a.1 = b.1) && decide (a.2 < b.2))

/-- Exact comparison; false when either side is not a number. -/
def less : Quantity → Quantity → Bool
  | whole m, whole n => decide (m < n)
  | a, b => match a.place?, b.place? with
    | some p, some q => placeLess p q
    | _, _ => false

/-- Exact equality of values: zero has one value, and not a number equals nothing. -/
def same : Quantity → Quantity → Bool
  | whole m, whole n => decide (m = n)
  | a, b => match a.place?, b.place? with
    | some p, some q => decide (p = q)
    | _, _ => false

def atMost (a b : Quantity) : Bool := a.less b || a.same b

def toBinary64? : Quantity → Option Binary64
  | whole n => Binary64.ofInt? n
  | real x => some x

/-- Applies the whole operation to two whole numbers and the real one otherwise. -/
def combine? (onWhole : Int → Int → Int) (onReal : Binary64 → Binary64 → Binary64) :
    Quantity → Quantity → Option Quantity
  | whole m, whole n => some (whole (onWhole m n))
  | a, b => match a.toBinary64?, b.toBinary64? with
    | some x, some y => some (real (onReal x y))
    | _, _ => none

def add? : Quantity → Quantity → Option Quantity := combine? (fun m n => m + n) Binary64.add

def sub? : Quantity → Quantity → Option Quantity := combine? (fun m n => m - n) Binary64.sub

def mul? : Quantity → Quantity → Option Quantity := combine? (fun m n => m * n) Binary64.mul

def neg : Quantity → Quantity
  | whole n => whole (-n)
  | real x => real x.neg

def abs : Quantity → Quantity
  | whole n => whole n.natAbs
  | real x => real x.abs

def isWhole : Quantity → Bool
  | whole _ => true
  | real _ => false

@[simp] theorem less_whole (m n : Int) : (whole m).less (whole n) = decide (m < n) := rfl

@[simp] theorem same_whole (m n : Int) : (whole m).same (whole n) = decide (m = n) := rfl

@[simp] theorem add?_whole (m n : Int) : (whole m).add? (whole n) = some (whole (m + n)) := rfl

@[simp] theorem sub?_whole (m n : Int) : (whole m).sub? (whole n) = some (whole (m - n)) := rfl

@[simp] theorem mul?_whole (m n : Int) : (whole m).mul? (whole n) = some (whole (m * n)) := rfl

end Quantity
end OrderedRelations
