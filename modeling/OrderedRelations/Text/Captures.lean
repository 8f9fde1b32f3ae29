/-!
# Captures

What may be captured at the front of a text, each time with the rest of the text. Alternatives are
listed in the order in which they are tried: the longest run of characters first, and something
before nothing. Where what follows fails, the next alternative is tried, so a whole reading is the
first one that is listed.
-/

namespace OrderedRelations.Text

/-- Alternatives, each with the text behind it. -/
abbrev Captures (α : Type) := List (α × List Char)

namespace Captures

variable {α β : Type}

/-- Characters of a class, at least one of them. -/
def run (inClass : Char → Bool) : List Char → Captures (List Char)
  | [] => []
  | c :: rest =>
    if inClass c then
      (run inClass rest).map (fun (word, rest) => (c :: word, rest)) ++ [([c], rest)]
    else []

/-- Nothing is captured after all else. -/
def optional (capture : List Char → Captures α) (cs : List Char) : Captures (Option α) :=
  (capture cs).map (fun (a, rest) => (some a, rest)) ++ [(none, cs)]

/-- What may follow in the text behind each alternative. -/
def andThen (found : Captures α) (next : α → List Char → Captures β) : Captures β :=
  found.flatMap fun (a, rest) => next a rest

end Captures
end OrderedRelations.Text
