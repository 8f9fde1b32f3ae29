/-!
# Pieces of a text

The pieces of a text are what stands between the separators in it, in front of the first and
behind the last.
-/

namespace OrderedRelations.Text

/-- The pieces between separators; adjacent separators have an empty piece between them. -/
def pieces (separator : Char) : List Char → List (List Char)
  | [] => [[]]
  | c :: rest =>
    if c = separator then [] :: pieces separator rest
    else match pieces separator rest with
      | piece :: more => (c :: piece) :: more
      | [] => [[c]]

end OrderedRelations.Text
