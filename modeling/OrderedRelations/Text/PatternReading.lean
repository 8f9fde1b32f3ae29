import OrderedRelations.Number.Decimal
import OrderedRelations.Text.Blank
import OrderedRelations.Text.CodePoint
import OrderedRelations.Text.Digits
import OrderedRelations.Text.Lowercase
import OrderedRelations.Text.Pattern

/-!
# Regular expressions

Reads patterns from the usual notation: alternatives, groups, repetition, classes with ranges
and set operations, escapes, anchors and inline flags. There are neither references back nor
assertions about the surroundings, apart from anchors and word edges.
-/

namespace OrderedRelations.Text.Pattern

/-- What inline flags switch on. -/
structure Flags where
  anyCase : Bool
  eachLine : Bool
  dotAll : Bool
  spaced : Bool

def Flags.none : Flags := ⟨false, false, false, false⟩

/-- A set of characters, or of either case of them. -/
def Flags.set (flags : Flags) (inSet : Char → Bool) : Char → Bool :=
  if flags.anyCase then fun c => inSet c || inSet (lowerChar c) || inSet c.toUpper else inSet

def Flags.single (flags : Flags) (c : Char) : Char → Bool :=
  flags.set fun d => d == c || (flags.anyCase && d == lowerChar c)

inductive Escaped where
  | char (c : Char)
  | set (inSet : Char → Bool)
  | anchor (p : Pattern)

def openBrace : Char := Char.ofNat 0x7B

def closeBrace : Char := Char.ofNat 0x7D

/-- The digits of an escaped code point: between braces, or as many as its letter asks for. -/
def hexDigits? (width : Nat) (cs : List Char) : Option (List Char × List Char) :=
  let digits := cs.takeWhile fun c => (hexValue? c).isSome
  match cs with
  | [] => none
  | c :: rest =>
    if c = openBrace then
      let inside := rest.takeWhile fun c => (hexValue? c).isSome
      match rest.dropWhile fun c => (hexValue? c).isSome with
      | d :: rest => if d = closeBrace ∧ inside ≠ [] then some (inside, rest) else none
      | [] => none
    else if width ≤ digits.length then some (cs.take width, cs.drop width)
    else none

def escapedPoint? (width : Nat) (cs : List Char) : Option (Escaped × List Char) := do
  let (digits, rest) ← hexDigits? width cs
  let c ← codePoint? digits
  pure (.char c, rest)

/-- Punctuation and controls may be escaped, angle brackets apart. -/
def mayBeEscaped (c : Char) : Bool :=
  decide (c.toNat < 0x80) && !c.isAlphanum && c != '<' && c != '>'

def readEscape? : List Char → Option (Escaped × List Char)
  | [] => none
  | c :: rest =>
    match c with
    | 'd' => some (.set fun d => (digit? d).isSome, rest)
    | 'D' => some (.set fun d => !(digit? d).isSome, rest)
    | 's' => some (.set isWhiteSpace, rest)
    | 'S' => some (.set fun d => !isWhiteSpace d, rest)
    | 'w' => some (.set isWord, rest)
    | 'W' => some (.set fun d => !isWord d, rest)
    | 'a' => some (.char (Char.ofNat 7), rest)
    | 'f' => some (.char (Char.ofNat 12), rest)
    | 't' => some (.char '\t', rest)
    | 'n' => some (.char '\n', rest)
    | 'r' => some (.char '\r', rest)
    | 'v' => some (.char (Char.ofNat 11), rest)
    | 'x' => escapedPoint? 2 rest
    | 'u' => escapedPoint? 4 rest
    | 'U' => escapedPoint? 8 rest
    | 'A' => some (.anchor (.start false), rest)
    | 'z' => some (.anchor (.finish false), rest)
    | 'b' => some (.anchor (.wordEdge true), rest)
    | 'B' => some (.anchor (.wordEdge false), rest)
    | c => if mayBeEscaped c then some (.char c, rest) else none

def namedClass? (name : String) : Option (Char → Bool) :=
  match name with
  | "alnum" => some Char.isAlphanum
  | "alpha" => some Char.isAlpha
  | "ascii" => some fun c => decide (c.toNat < 0x80)
  | "blank" => some fun c => c == ' ' || c == '\t'
  | "cntrl" => some fun c => decide (c.toNat < 0x20) || c.toNat == 0x7F
  | "digit" => some Char.isDigit
  | "graph" => some fun c => decide (0x20 < c.toNat) && decide (c.toNat < 0x7F)
  | "lower" => some Char.isLower
  | "print" => some fun c => decide (0x20 ≤ c.toNat) && decide (c.toNat < 0x7F)
  | "punct" => some fun c =>
    decide (0x20 < c.toNat) && decide (c.toNat < 0x7F) && !c.isAlphanum
  | "space" => some fun c => c == ' ' || (decide (9 ≤ c.toNat) && decide (c.toNat ≤ 13))
  | "upper" => some Char.isUpper
  | "word" => some fun c => c.isAlphanum || c == '_'
  | "xdigit" => some fun c => (hexValue? c).isSome
  | _ => none

def readNamed? : List Char → Option ((Char → Bool) × List Char)
  | ':' :: rest =>
    let (negated, rest) := match rest with
      | '^' :: rest => (true, rest)
      | rest => (false, rest)
    match rest.dropWhile Char.isAlpha with
    | ':' :: ']' :: after =>
      (namedClass? (String.ofList (rest.takeWhile Char.isAlpha))).map fun inSet =>
        (fun c => inSet c != negated, after)
    | _ => none
  | _ => none

inductive SetOperation where
  | intersection
  | difference
  | symmetricDifference

def SetOperation.apply (operation : SetOperation) (left right : Char → Bool) : Char → Bool :=
  match operation with
  | intersection => fun c => left c && right c
  | difference => fun c => left c && !right c
  | symmetricDifference => fun c => left c != right c

/-- A class being read: an operation that waits for its right side, and the set so far. -/
structure ClassDraft where
  pending : Option (SetOperation × (Char → Bool))
  inSet : Char → Bool

namespace ClassDraft

def empty : ClassDraft := ⟨none, fun _ => false⟩

def add (d : ClassDraft) (inSet : Char → Bool) : ClassDraft :=
  { d with inSet := fun c => d.inSet c || inSet c }

def close (d : ClassDraft) : Char → Bool :=
  match d.pending with
  | some (operation, left) => operation.apply left d.inSet
  | none => d.inSet

def operate (d : ClassDraft) (operation : SetOperation) : ClassDraft :=
  ⟨some (operation, d.close), fun _ => false⟩

end ClassDraft

/-- Reads one member of a class: a character, or a set of them. -/
def readMember? : List Char → Option (Escaped × List Char)
  | '\\' :: rest =>
    match readEscape? rest with
    | some (.anchor _, _) => none
    | other => other
  | c :: rest => some (.char c, rest)
  | [] => none

/-- Reads a member or a range of a class into a set. -/
def readRange? (flags : Flags) (cs : List Char) : Option ((Char → Bool) × List Char) := do
  let (first, rest) ← readMember? cs
  let ranges := match rest with
    | '-' :: ']' :: _ => false
    | '-' :: '-' :: _ => false
    | '-' :: _ => true
    | _ => false
  match first with
  | .char low =>
    if ranges then
      let (last, rest) ← readMember? (rest.drop 1)
      match last with
      | .char high =>
        if low ≤ high then
          some (flags.set fun c => decide (low ≤ c) && decide (c ≤ high), rest)
        else none
      | _ => none
    else some (flags.single low, rest)
  | .set inSet => if ranges then none else some (inSet, rest)
  | .anchor _ => none

/-- What stands in front of the members of a class: a sign of negation, hyphens and one closing
bracket that stand for themselves. -/
def openClass (flags : Flags) (cs : List Char) : Bool × ClassDraft × List Char :=
  let (negated, cs) := match cs with
    | '^' :: rest => (true, rest)
    | rest => (false, rest)
  let rest := cs.dropWhile (· == '-')
  if rest.length < cs.length then
    (negated, ClassDraft.empty.add (flags.single '-'), rest)
  else match rest with
    | ']' :: rest => (negated, ClassDraft.empty.add (flags.single ']'), rest)
    | rest => (negated, ClassDraft.empty, rest)

def readClass? (flags : Flags) :
    (fuel : Nat) → ClassDraft → List Char → Option ((Char → Bool) × List Char)
  | 0, _, _ => none
  | _, _, [] => none
  | _ + 1, d, ']' :: rest => some (d.close, rest)
  | fuel + 1, d, '&' :: '&' :: rest => readClass? flags fuel (d.operate .intersection) rest
  | fuel + 1, d, '-' :: '-' :: rest => readClass? flags fuel (d.operate .difference) rest
  | fuel + 1, d, '~' :: '~' :: rest =>
    readClass? flags fuel (d.operate .symmetricDifference) rest
  | fuel + 1, d, '[' :: rest =>
    match readNamed? rest with
    | some (inSet, rest) => readClass? flags fuel (d.add (flags.set inSet)) rest
    | none =>
      let (negated, inner, rest) := openClass flags rest
      match readClass? flags fuel inner rest with
      | some (inSet, rest) => readClass? flags fuel (d.add fun c => inSet c != negated) rest
      | none => none
  | fuel + 1, d, cs =>
    match readRange? flags cs with
    | some (inSet, rest) => readClass? flags fuel (d.add inSet) rest
    | none => none

/-- Reads digits, of which there must be one. -/
def readBound? (cs : List Char) : Option (Nat × List Char) :=
  let digits := cs.takeWhile Char.isDigit
  if digits.isEmpty then none
  else some (Decimal.digitsValue digits, cs.dropWhile Char.isDigit)

def readBounds? (cs : List Char) : Option ((Nat × Option Nat) × List Char) := do
  let (least, rest) ← readBound? cs
  match rest with
  | ',' :: c :: rest =>
    if c = closeBrace then some ((least, none), rest)
    else
      let (most, rest) ← readBound? (c :: rest)
      match rest with
      | c :: rest =>
        if c = closeBrace ∧ least ≤ most then some ((least, some most), rest) else none
      | [] => none
  | c :: rest => if c = closeBrace then some ((least, some least), rest) else none
  | [] => none

def isRepetition (c : Char) : Bool := c == '*' || c == '+' || c == '?' || c == openBrace

/-- Reads how often the item before may be repeated; a question mark behind makes no difference
to what matches. -/
def readRepetition? (c : Char) (rest : List Char) : Option ((Nat × Option Nat) × List Char) := do
  let (bounds, rest) ←
    if c = '*' then some ((0, none), rest)
    else if c = '+' then some ((1, none), rest)
    else if c = '?' then some ((0, some 1), rest)
    else readBounds? rest
  match rest with
  | '?' :: rest => pure (bounds, rest)
  | rest => pure (bounds, rest)

def Flags.switch? (flags : Flags) (on : Bool) : Char → Option Flags
  | 'i' => some { flags with anyCase := on }
  | 'm' => some { flags with eachLine := on }
  | 's' => some { flags with dotAll := on }
  | 'x' => some { flags with spaced := on }
  | 'U' => some flags
  | 'u' => some flags
  | 'R' => some flags
  | _ => none

/-- Switches flags one after the other; those behind a minus sign are switched off. -/
def Flags.switchAll? (flags : Flags) (on : Bool) : List Char → Option Flags
  | [] => some flags
  | '-' :: rest => if on && !rest.isEmpty then flags.switchAll? false rest else none
  | c :: rest => (flags.switch? on c).bind fun flags => flags.switchAll? on rest

/-- The head of a group: it only sets flags, or it opens a pattern of its own. -/
inductive GroupHead where
  | sets (flags : Flags)
  | opens (flags : Flags)

/-- Reads the name of a group up to its closing bracket. -/
def skipName? (cs : List Char) : Option (List Char) :=
  match cs.takeWhile (· != '>'), cs.dropWhile (· != '>') with
  | c :: _, _ :: rest => if c.isAlpha || c == '_' then some rest else none
  | _, _ => none

def readGroupHead? (flags : Flags) : List Char → Option (GroupHead × List Char)
  | '?' :: 'P' :: '<' :: rest => (skipName? rest).map (.opens flags, ·)
  | '?' :: '<' :: rest => (skipName? rest).map (.opens flags, ·)
  | '?' :: rest =>
    let letters := rest.takeWhile fun c => c.isAlpha || c == '-'
    (flags.switchAll? true letters).bind fun switched =>
      match rest.dropWhile fun c => c.isAlpha || c == '-' with
      | ':' :: rest => some (.opens switched, rest)
      | ')' :: rest => if letters.isEmpty then none else some (.sets switched, rest)
      | _ => none
  | rest => some (.opens flags, rest)

def readAtom? (flags : Flags) (c : Char) (rest : List Char) : Option (Pattern × List Char) :=
  match c with
  | '.' => some (.char fun d => flags.dotAll || d != '\n', rest)
  | '^' => some (.start flags.eachLine, rest)
  | '$' => some (.finish flags.eachLine, rest)
  | '\\' => (readEscape? rest).map fun (escaped, rest) =>
    match escaped with
    | .char c => (.char (flags.single c), rest)
    | .set inSet => (.char inSet, rest)
    | .anchor p => (p, rest)
  | '[' =>
    let (negated, d, rest) := openClass flags rest
    (readClass? flags (rest.length + 1) d rest).map fun (inSet, rest) =>
      (.char fun c => inSet c != negated, rest)
  | c => some (.char (flags.single c), rest)

/-- A pattern being read: the alternatives in front of the current one, and the items of the
current one, each the last first. Setting flags leaves an item that is no pattern. -/
structure Draft where
  branches : List Pattern
  items : List (Option Pattern)

namespace Draft

def empty : Draft := ⟨[], []⟩

def push (d : Draft) (item : Option Pattern) : Draft := { d with items := item :: d.items }

def branch (d : Draft) : Pattern :=
  d.items.foldl (fun rest item => match item with
    | some p => .seq p rest
    | none => rest) .empty

def nextBranch (d : Draft) : Draft := ⟨d.branch :: d.branches, []⟩

def close (d : Draft) : Pattern := d.branches.foldl (fun p q => .either q p) d.branch

/-- Repeats the last item, which must be a pattern. -/
def repeatLast? (d : Draft) (bounds : Nat × Option Nat) : Option Draft :=
  match d.items with
  | some p :: rest => some { d with items := some (.repeated p bounds.1 bounds.2) :: rest }
  | _ => none

end Draft

/-- Reads alternatives up to the end of the text or a closing parenthesis. -/
def readBranches? : (fuel : Nat) → Flags → Draft → List Char → Option (Pattern × List Char)
  | 0, _, _, _ => none
  | _, _, d, [] => some (d.close, [])
  | fuel + 1, flags, d, c :: rest =>
    if c = ')' then some (d.close, c :: rest)
    else if c = '|' then readBranches? fuel flags d.nextBranch rest
    else if c = '(' then
      match readGroupHead? flags rest with
      | none => none
      | some (.sets switched, rest) => readBranches? fuel switched (d.push none) rest
      | some (.opens switched, rest) =>
        match readBranches? fuel switched .empty rest with
        | some (p, ')' :: rest) => readBranches? fuel flags (d.push (some p)) rest
        | _ => none
    else if isRepetition c then
      match readRepetition? c rest with
      | none => none
      | some (bounds, rest) =>
        match d.repeatLast? bounds with
        | some d => readBranches? fuel flags d rest
        | none => none
    else if flags.spaced && isWhiteSpace c then readBranches? fuel flags d rest
    else if flags.spaced && c == '#' then
      readBranches? fuel flags d (rest.dropWhile (· != '\n'))
    else match readAtom? flags c rest with
      | some (p, rest) => readBranches? fuel flags (d.push (some p)) rest
      | none => none

/-- The pattern that a text writes, unless the text writes none. -/
def ofText? (s : String) : Option Pattern :=
  match readBranches? (s.length + 1) .none .empty s.toList with
  | some (p, []) => some p
  | _ => none

end OrderedRelations.Text.Pattern
