import OrderedRelations.Text.CodePoint
import OrderedRelations.Value.Basic

/-!
# TOML documents

Reads tables, arrays of tables, dotted keys, numbers, booleans, dates, times, moments, strings of
one line or several, arrays and inline tables into a record. A document that declares a table
twice, sets a key twice or reopens what a value has closed is malformed. The fraction of a second
is cut to microseconds. Reading stops at the first fault.
-/

namespace OrderedRelations.Toml

/-- Why a document is not read: it is malformed, or a whole number of it has more decimal digits
than are allowed. -/
inductive Fault where
  | malformed
  | tooManyDigits (digits : Nat)
  deriving DecidableEq

abbrev Attempt (α : Type) := Except Fault α

/-- What a document is malformed without. -/
def need {α : Type} : Option α → Attempt α
  | some a => .ok a
  | none => .error .malformed

def isControl (c : Char) : Bool := (decide (c.toNat < 0x20) && c != '\t') || c.toNat == 0x7F

def isSpace (c : Char) : Bool := c == ' ' || c == '\t'

def skipSpaces (cs : List Char) : List Char := cs.dropWhile isSpace

def joinLineEnds : List Char → List Char
  | '\r' :: '\n' :: rest => '\n' :: joinLineEnds rest
  | c :: rest => c :: joinLineEnds rest
  | [] => []

/-- Skips spaces, line ends and comments; a comment holds no control characters. -/
def skipLayout? (inComment : Bool) : List Char → Option (List Char)
  | [] => some []
  | c :: rest =>
    if c = '\n' then skipLayout? false rest
    else if inComment then (if isControl c then none else skipLayout? true rest)
    else if isSpace c then skipLayout? false rest
    else if c = '#' then skipLayout? true rest
    else some (c :: rest)

/-- Skips what may stand between a statement and the end of its line, and the line end. -/
def endLine? (cs : List Char) : Option (List Char) :=
  match skipSpaces cs with
  | [] => some []
  | '\n' :: rest => some rest
  | '#' :: rest =>
    if (rest.takeWhile (· != '\n')).any isControl then none
    else some ((rest.dropWhile (· != '\n')).drop 1)
  | _ => none

def escaped? : Char → Option Char
  | 'b' => some (Char.ofNat 8)
  | 't' => some '\t'
  | 'n' => some '\n'
  | 'f' => some (Char.ofNat 12)
  | 'r' => some '\r'
  | '"' => some '"'
  | '\\' => some '\\'
  | _ => none

def readBasic? : List Char → Option (List Char × List Char)
  | [] => none
  | '"' :: rest => some ([], rest)
  | '\\' :: 'u' :: a :: b :: c :: d :: rest => do
    let e ← Text.codePoint? [a, b, c, d]
    let (text, rest) ← readBasic? rest
    pure (e :: text, rest)
  | '\\' :: 'U' :: a :: b :: c :: d :: e :: f :: g :: h :: rest => do
    let i ← Text.codePoint? [a, b, c, d, e, f, g, h]
    let (text, rest) ← readBasic? rest
    pure (i :: text, rest)
  | '\\' :: c :: rest => do
    let e ← escaped? c
    let (text, rest) ← readBasic? rest
    pure (e :: text, rest)
  | c :: rest =>
    if isControl c then none
    else (readBasic? rest).map fun (text, rest) => (c :: text, rest)

def readLiteral? (cs : List Char) : Option (List Char × List Char) :=
  let text := cs.takeWhile (· != '\'')
  match cs.dropWhile (· != '\'') with
  | [] => none
  | _ :: rest => if text.any isControl then none else some (text, rest)

/-- Where in a string of several lines a character stands: inside it, behind a backslash that a
line end must follow, or among the white space behind that. -/
inductive LineJoin where
  | inside
  | upToLineEnd
  | pastLineEnds
  deriving DecidableEq

/-- Up to two quotes that stand in front of the closing ones. -/
def readExtraQuotes (quote : Char) : List Char → List Char × List Char
  | c :: d :: rest =>
    if c = quote ∧ d = quote then ([c, d], rest)
    else if c = quote then ([c], d :: rest)
    else ([], c :: d :: rest)
  | [c] => if c = quote then ([c], []) else ([], [c])
  | [] => ([], [])

/-- Reads a basic string of several lines behind its opening quotes; a backslash at the end of a
line takes the white space behind it out of the string. -/
def readBasicLines? : LineJoin → List Char → Option (List Char × List Char)
  | _, [] => none
  | .upToLineEnd, '\n' :: rest => readBasicLines? .pastLineEnds rest
  | .upToLineEnd, c :: rest => if isSpace c then readBasicLines? .upToLineEnd rest else none
  | .pastLineEnds, '\n' :: rest => readBasicLines? .pastLineEnds rest
  | .pastLineEnds, ' ' :: rest => readBasicLines? .pastLineEnds rest
  | .pastLineEnds, '\t' :: rest => readBasicLines? .pastLineEnds rest
  | _, '"' :: '"' :: '"' :: rest => some (readExtraQuotes '"' rest)
  | _, '\\' :: 'u' :: a :: b :: c :: d :: rest => do
    let e ← Text.codePoint? [a, b, c, d]
    let (text, rest) ← readBasicLines? .inside rest
    pure (e :: text, rest)
  | _, '\\' :: 'U' :: a :: b :: c :: d :: e :: f :: g :: h :: rest => do
    let i ← Text.codePoint? [a, b, c, d, e, f, g, h]
    let (text, rest) ← readBasicLines? .inside rest
    pure (i :: text, rest)
  | _, '\\' :: '\n' :: rest => readBasicLines? .pastLineEnds rest
  | _, '\\' :: c :: rest =>
    if isSpace c then readBasicLines? .upToLineEnd rest
    else do
      let e ← escaped? c
      let (text, rest) ← readBasicLines? .inside rest
      pure (e :: text, rest)
  | _, c :: rest =>
    if isControl c ∧ c ≠ '\n' then none
    else (readBasicLines? .inside rest).map fun (text, rest) => (c :: text, rest)

def readLiteralLines? : List Char → Option (List Char × List Char)
  | [] => none
  | '\'' :: '\'' :: '\'' :: rest => some (readExtraQuotes '\'' rest)
  | c :: rest =>
    if isControl c ∧ c ≠ '\n' then none
    else (readLiteralLines? rest).map fun (text, rest) => (c :: text, rest)

/-- A line end right behind the opening quotes is no part of a string of several lines. -/
def skipLineEnd : List Char → List Char
  | '\n' :: rest => rest
  | cs => cs

def readString? : List Char → Option (List Char × List Char)
  | '"' :: '"' :: '"' :: rest => readBasicLines? .inside (skipLineEnd rest)
  | '"' :: rest => readBasic? rest
  | '\'' :: '\'' :: '\'' :: rest => readLiteralLines? (skipLineEnd rest)
  | '\'' :: rest => readLiteral? rest
  | _ => none

def isBareKeyChar (c : Char) : Bool := c.isAlphanum || c == '_' || c == '-'

def readKeyPart? : List Char → Option (String × List Char)
  | '"' :: rest => (readBasic? rest).map fun (text, rest) => (String.ofList text, rest)
  | '\'' :: rest => (readLiteral? rest).map fun (text, rest) => (String.ofList text, rest)
  | cs =>
    let part := cs.takeWhile isBareKeyChar
    if part.isEmpty then none else some (String.ofList part, cs.dropWhile isBareKeyChar)

/-- Skips the sign between a key and its value, with the spaces behind it. -/
def skipEquals? : List Char → Option (List Char)
  | '=' :: rest => some (skipSpaces rest)
  | _ => none

/-- Reads a dotted key of at most as many parts as there is fuel. -/
def readKey? : (fuel : Nat) → List Char → Option (List String × List Char)
  | 0, _ => none
  | fuel + 1, cs => do
    let (part, rest) ← readKeyPart? (skipSpaces cs)
    match skipSpaces rest with
    | '.' :: rest =>
      let (parts, rest) ← readKey? fuel rest
      pure (part :: parts, rest)
    | rest => pure ([part], rest)

/-- Removes underscores that have a character of a class on either side. -/
def ungroup? (inClass : Char → Bool) : List Char → Option (List Char)
  | [] => none
  | [c] => if inClass c then some [c] else none
  | c :: '_' :: rest => if inClass c then (ungroup? inClass rest).map (c :: ·) else none
  | c :: rest => if inClass c then (ungroup? inClass rest).map (c :: ·) else none

/-- Digits without a leading zero, unless zero is all there is. -/
def plainDigits? (cs : List Char) : Option (List Char) :=
  match cs with
  | '0' :: _ :: _ => none
  | _ => ungroup? Char.isDigit cs

def splitSign : List Char → Bool × List Char
  | '-' :: rest => (true, rest)
  | '+' :: rest => (false, rest)
  | cs => (false, cs)

def baseValue (base : Nat) (cs : List Char) : Nat :=
  cs.foldl (fun n c => base * n + (Text.hexValue? c).getD 0) 0

def isDigitOf (base : Nat) (c : Char) : Bool :=
  match Text.hexValue? c with
  | some n => decide (n < base)
  | none => false

/-- Unsigned whole numbers in base 16, 8 or 2. -/
def readBased? (cs : List Char) : Option Value :=
  let based (base : Nat) (rest : List Char) : Option Value :=
    (ungroup? (isDigitOf base) rest).map fun digits => .int (baseValue base digits)
  match cs with
  | '0' :: 'x' :: rest => based 16 rest
  | '0' :: 'o' :: rest => based 8 rest
  | '0' :: 'b' :: rest => based 2 rest
  | _ => none

/-- The sign and the digits of a whole number in decimal. -/
def readDecimal? (cs : List Char) : Option (Bool × List Char) :=
  (plainDigits? (splitSign cs).2).map ((splitSign cs).1, ·)

/-- The digits of a fraction behind its point; a number may also have no fraction. -/
def fractionDigits? : List Char → Option (List Char)
  | [] => some []
  | '.' :: rest => ungroup? Char.isDigit rest
  | _ => none

/-- An exponent behind its letter; a number may also have no exponent. -/
def exponentDigits? : List Char → Option (Bool × List Char)
  | [] => some (false, ['0'])
  | _ :: rest =>
    let (negative, digits) := splitSign rest
    (ungroup? Char.isDigit digits).map (negative, ·)

def isExponentLetter (c : Char) : Bool := c == 'e' || c == 'E'

def readFloat? (cs : List Char) : Option Value := do
  let (negative, rest) := splitSign cs
  let word := String.ofList rest
  let magnitude ←
    if word = "inf" then some (Binary64.infinity false)
    else if word = "nan" then some Binary64.undefined
    else do
      let mantissa := rest.takeWhile fun c => !isExponentLetter c
      let whole ← plainDigits? (mantissa.takeWhile (· != '.'))
      let fraction ← fractionDigits? (mantissa.dropWhile (· != '.'))
      let (down, digits) ← exponentDigits? (rest.dropWhile fun c => !isExponentLetter c)
      let e : Int := Decimal.digitsValue digits
      let d : Decimal :=
        ⟨Decimal.digitsValue (whole ++ fraction), (if down then -e else e) - fraction.length⟩
      pure d.toBinary64
  pure (.float (if negative then magnitude.neg else magnitude))

def readTwo? (limit : Nat) (cs : List Char) : Option (Nat × List Char) :=
  (Date.readDigits? 2 cs).bind fun (n, rest) => if n < limit then some (n, rest) else none

/-- Reads the fraction of a second as microseconds, if there is one. -/
def readMicroseconds (cs : List Char) : Nat × List Char :=
  match cs with
  | '.' :: rest =>
    let digits := rest.takeWhile Char.isDigit
    if digits.isEmpty then (0, cs)
    else (Decimal.digitsValue ((digits ++ List.replicate 6 '0').take 6),
      rest.dropWhile Char.isDigit)
  | cs => (0, cs)

def readClock? (cs : List Char) : Option (Nat × List Char) := do
  let (hour, cs) ← readTwo? 24 cs
  let cs ← Date.skip? ':' cs
  let (minute, cs) ← readTwo? 60 cs
  let cs ← Date.skip? ':' cs
  let (second, cs) ← readTwo? 60 cs
  let (micros, cs) := readMicroseconds cs
  pure (((hour * 60 + minute) * 60 + second) * 1000000 + micros, cs)

def readOffset? (cs : List Char) : Option (Int × List Char) := do
  let (hours, cs) ← readTwo? 24 cs
  let cs ← Date.skip? ':' cs
  let (minutes, cs) ← readTwo? 60 cs
  pure (((hours * 60 + minutes) * 60000000 : Nat), cs)

/-- The offset from UTC that a moment has behind its clock reading, if it has one. -/
def readZone (cs : List Char) : Option Int × List Char :=
  match cs with
  | 'Z' :: rest => (some 0, rest)
  | 'z' :: rest => (some 0, rest)
  | '+' :: rest =>
    match readOffset? rest with
    | some (n, rest) => (some n, rest)
    | none => (none, cs)
  | '-' :: rest =>
    match readOffset? rest with
    | some (n, rest) => (some (-n), rest)
    | none => (none, cs)
  | cs => (none, cs)

/-- Reads a date, and a moment where a clock reading follows it. -/
def readMoment? (cs : List Char) : Option (Value × List Char) := do
  let (date, rest) ← Date.readIso? cs
  let clock := match rest with
    | c :: rest => if c = 'T' ∨ c = 't' ∨ c = ' ' then readClock? rest else none
    | [] => none
  match clock with
  | some (clock, rest) =>
    let (offset, rest) := readZone rest
    if h : clock < dayMicroseconds then some (.datetime ⟨date, clock, h, offset⟩, rest)
    else none
  | none => some (.date date, rest)

def readTemporal? (cs : List Char) : Option (Value × List Char) :=
  (readMoment? cs).or ((readClock? cs).map fun (clock, rest) => (.time clock, rest))

/-- A value without quotes or brackets that is no date and no time. The limit is on the digits of
whole numbers in decimal alone. -/
def readWord (limit : Nat) (cs : List Char) : Attempt Value :=
  let word := String.ofList cs
  if word = "true" then .ok (.bool true)
  else if word = "false" then .ok (.bool false)
  else match readDecimal? cs with
    | some (negative, digits) =>
      let n : Int := Decimal.digitsValue digits
      if limit < digits.length then .error (.tooManyDigits digits.length)
      else .ok (.int (if negative then -n else n))
    | none => need ((readBased? cs).or (readFloat? cs))

def isWordChar (c : Char) : Bool :=
  c.isAlphanum || c == '+' || c == '-' || c == '.' || c == '_'

def replaceField (key : String) (v : Value) (fields : FieldList) : FieldList :=
  fields.map fun (other, w) => (other, if other = key then v else w)

/-- Changes the table at a path, with missing tables made on the way. An array of tables on the
way stands for the last of them. -/
def touch? (update : FieldList → Option FieldList) :
    List String → FieldList → Option FieldList
  | [], fields => update fields
  | key :: path, fields =>
    match fields.lookup key with
    | none => (touch? update path []).map fun inner => fields ++ [(key, .record inner)]
    | some (.record inner) =>
      (touch? update path inner).map fun inner => replaceField key (.record inner) fields
    | some (.list items) =>
      match items.getLast? with
      | some (.record inner) =>
        (touch? update path inner).map fun inner =>
          replaceField key (.list (items.dropLast ++ [.record inner])) fields
      | _ => none
    | some _ => none

/-- Adds an empty table to an array of tables, which is made where it is missing. -/
def appendTable? (name : String) (fields : FieldList) : Option FieldList :=
  match fields.lookup name with
  | none => some (fields ++ [(name, .list [.record []])])
  | some (.list items) => some (replaceField name (.list (items ++ [.record []])) fields)
  | some _ => none

/-- Sets a field that has not been set. -/
def setField? (name : String) (v : Value) (fields : FieldList) : Option FieldList :=
  if fields.any fun (other, _) => decide (other = name) then none
  else some (fields ++ [(name, v)])

/-- Whether a path is one of some others or leads into one. -/
def liesIn (closed : List (List String)) (path : List String) : Bool :=
  closed.any fun p => p.isPrefixOf path

/-- The paths that a value at a path closes: its own when it is an array or a table. -/
def closedBy (path : List String) : Value → List (List String)
  | .list _ => [path]
  | .record _ => [path]
  | _ => []

mutual

/-- Reads a value nested at most as deep as there is fuel. -/
def readValue (limit : Nat) : (fuel : Nat) → List Char → Attempt (Value × List Char)
  | 0, _ => .error .malformed
  | fuel + 1, cs =>
    match cs with
    | '"' :: _ =>
      need ((readString? cs).map fun (text, rest) => (.text (String.ofList text), rest))
    | '\'' :: _ =>
      need ((readString? cs).map fun (text, rest) => (.text (String.ofList text), rest))
    | '[' :: rest => (readItems limit fuel rest).map fun (items, rest) => (.list items, rest)
    | c :: rest =>
      if c.toNat = 0x7B then
        match skipSpaces rest with
        | d :: rest =>
          if d.toNat = 0x7D then .ok (.record [], rest)
          else (readPairs limit fuel [] [] (d :: rest)).map fun (fields, rest) =>
            (.record fields, rest)
        | [] => .error .malformed
      else match readTemporal? cs with
        | some read => .ok read
        | none =>
          (readWord limit (cs.takeWhile isWordChar)).map fun v => (v, cs.dropWhile isWordChar)
    | [] => .error .malformed

def readItems (limit : Nat) : (fuel : Nat) → List Char → Attempt (List Value × List Char)
  | 0, _ => .error .malformed
  | fuel + 1, cs => do
    let cs ← need (skipLayout? false cs)
    match cs with
    | ']' :: rest => pure ([], rest)
    | cs =>
      let (v, rest) ← readValue limit fuel cs
      let rest ← need (skipLayout? false rest)
      match rest with
      | ',' :: rest =>
        let (items, rest) ← readItems limit fuel rest
        pure (v :: items, rest)
      | ']' :: rest => pure ([v], rest)
      | _ => throw .malformed

/-- Reads the pairs of an inline table up to its closing brace. Arrays and tables that are values
of it are closed. -/
def readPairs (limit : Nat) : (fuel : Nat) → (closed : List (List String)) → FieldList →
    List Char → Attempt (FieldList × List Char)
  | 0, _, _, _ => .error .malformed
  | fuel + 1, closed, fields, cs => do
    let (key, rest) ← need (readKey? (cs.length + 1) cs)
    let rest ← need (skipEquals? rest)
    let (v, rest) ← readValue limit fuel rest
    if liesIn closed key then throw .malformed
    let fields ← need (touch? (setField? (key.getLastD "") v) key.dropLast fields)
    match skipSpaces rest with
    | ',' :: rest => readPairs limit fuel (closedBy key v ++ closed) fields rest
    | c :: rest => if c.toNat = 0x7D then pure (fields, rest) else throw .malformed
    | [] => throw .malformed

end

/-- A document being read: its tables, the header in force, the tables that headers have
declared, those that dotted keys will have declared by the next header, and the values that
nothing may be added to. -/
structure Draft where
  root : FieldList
  header : List String
  declared : List (List String)
  pending : List (List String)
  closed : List (List String)

namespace Draft

def isClosed (d : Draft) (path : List String) : Bool := liesIn d.closed path

def openTable? (d : Draft) (path : List String) : Option Draft :=
  let declared := d.pending ++ d.declared
  if declared.contains path || d.isClosed path then none
  else (touch? some path d.root).map fun root =>
    ⟨root, path, path :: declared, [], d.closed⟩

/-- Opens a new table of an array by its header; what the tables before it have declared and
closed is forgotten. -/
def openItem? (d : Draft) (path : List String) : Option Draft :=
  let forgets := fun p : List String => !path.isPrefixOf p
  if d.isClosed path then none
  else (touch? (appendTable? (path.getLastD "")) path.dropLast d.root).map fun root =>
    ⟨root, path, path :: (d.pending ++ d.declared).filter forgets, [], d.closed.filter forgets⟩

/-- The tables that a dotted key passes through. -/
def passedTables (header key : List String) : List (List String) :=
  (List.range (key.length - 1)).map fun i => header ++ key.take (i + 1)

def setKey? (d : Draft) (key : List String) (v : Value) : Option Draft :=
  let passed := passedTables d.header key
  let parent := d.header ++ key.dropLast
  if passed.any d.declared.contains || d.isClosed parent then none
  else (touch? (setField? (key.getLastD "") v) parent d.root).map fun root =>
    { d with
      root := root
      pending := passed ++ d.pending
      closed := closedBy (d.header ++ key) v ++ d.closed }

end Draft

/-- Skips the bracket that ends the header of a table, and the rest of its line. -/
def endHeader? : List Char → Option (List Char)
  | ']' :: rest => endLine? rest
  | _ => none

/-- Skips the brackets that end the header of an array of tables, and the rest of its line. -/
def endItemHeader? : List Char → Option (List Char)
  | ']' :: ']' :: rest => endLine? rest
  | _ => none

/-- Reads statements, one a line, for at most as many lines as there is fuel. -/
def readStatements (limit : Nat) : (fuel : Nat) → Draft → List Char → Attempt Draft
  | 0, _, _ => .error .malformed
  | fuel + 1, d, cs =>
    match skipSpaces cs with
    | [] => .ok d
    | '\n' :: rest => readStatements limit fuel d rest
    | '#' :: rest => do
      let rest ← need (endLine? ('#' :: rest))
      readStatements limit fuel d rest
    | '[' :: '[' :: rest => do
      let (path, rest) ← need (readKey? (rest.length + 1) rest)
      let rest ← need (endItemHeader? rest)
      let d ← need (d.openItem? path)
      readStatements limit fuel d rest
    | '[' :: rest => do
      let (path, rest) ← need (readKey? (rest.length + 1) rest)
      let rest ← need (endHeader? rest)
      let d ← need (d.openTable? path)
      readStatements limit fuel d rest
    | cs => do
      let (key, rest) ← need (readKey? (cs.length + 1) cs)
      let rest ← need (skipEquals? rest)
      let (v, rest) ← readValue limit (rest.length + 1) rest
      let d ← need (d.setKey? key v)
      let rest ← need (endLine? rest)
      readStatements limit fuel d rest

/-- Reads the root table of a document whose whole numbers have at most as many decimal digits as
a limit allows. -/
def parse (limit : Nat) (s : String) : Attempt FieldList :=
  let cs := joinLineEnds s.toList
  (readStatements limit (cs.length + 1) ⟨[], [], [], [], []⟩ cs).map Draft.root

end OrderedRelations.Toml
