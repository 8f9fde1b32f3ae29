import OrderedRelations.Text.Word

/-!
# Patterns of text

A pattern is read as the positions where its matches from a given position end. Positions count
the characters in front of them. A pattern is found in a text when it has a match from some
position.
-/

namespace OrderedRelations.Text

inductive Pattern where
  | empty
  | char (inSet : Char → Bool)
  | start (eachLine : Bool)
  | finish (eachLine : Bool)
  | wordEdge (present : Bool)
  | seq (first second : Pattern)
  | either (first second : Pattern)
  | repeated (body : Pattern) (least : Nat) (most : Option Nat)

namespace Pattern

/-- Where a step leads from any of some positions. -/
def stepAll (step : Nat → List Nat) (positions : List Nat) : List Nat :=
  (positions.flatMap step).eraseDups

def after (step : Nat → List Nat) : (steps : Nat) → List Nat → List Nat
  | 0, positions => positions
  | n + 1, positions => after step n (stepAll step positions)

def within (step : Nat → List Nat) : (steps : Nat) → List Nat → List Nat
  | 0, positions => positions
  | n + 1, positions => (positions ++ within step n (stepAll step positions)).eraseDups

/-- Whether a character of a class stands at a position. -/
def holdsAt (text : Array Char) (inClass : Char → Bool) (i : Nat) : Bool :=
  match text[i]? with
  | some c => inClass c
  | none => false

/-- Whether a word character stands on one side of a position only. -/
def atWordEdge (text : Array Char) (i : Nat) : Bool :=
  (decide (0 < i) && holdsAt text isWord (i - 1)) != holdsAt text isWord i

/-- Where the matches of a pattern from a position end. More repetitions than the text has
characters lead nowhere else. -/
def ends (text : Array Char) : Pattern → Nat → List Nat
  | empty, i => [i]
  | char inSet, i => if holdsAt text inSet i then [i + 1] else []
  | start eachLine, i =>
    if i = 0 ∨ (eachLine && holdsAt text (· == '\n') (i - 1)) = true then [i] else []
  | finish eachLine, i =>
    if i = text.size ∨ (eachLine && holdsAt text (· == '\n') i) = true then [i] else []
  | wordEdge present, i => if atWordEdge text i = present then [i] else []
  | seq first second, i => stepAll (fun j => ends text second j) (ends text first i)
  | either first second, i => (ends text first i ++ ends text second i).eraseDups
  | repeated body least most, i =>
    let further := match most with
      | some most => min (most - least) (text.size + 1)
      | none => text.size + 1
    within (fun j => ends text body j) further (after (fun j => ends text body j) least [i])

def isFoundIn (p : Pattern) (s : String) : Bool :=
  let text := s.toList.toArray
  (List.range (text.size + 1)).any fun i => !(ends text p i).isEmpty

end Pattern
end OrderedRelations.Text
