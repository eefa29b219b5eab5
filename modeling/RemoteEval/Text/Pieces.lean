/-!
# Pieces between separators

`pieces` cuts characters at every occurrence of a separator, `glue` puts them together again.
-/

namespace RemoteEval.Text

/-- The runs between the separators, empty ones included : one more than there are
separators. -/
def pieces (separator : Char) : List Char → List (List Char)
  | [] => [[]]
  | c :: rest =>
    if c = separator then [] :: pieces separator rest
    else
      match pieces separator rest with
      | [] => [[c]]
      | first :: others => (c :: first) :: others

/-- The runs with one separator between each two. -/
def glue (separator : Char) : List (List Char) → List Char
  | [] => []
  | [last] => last
  | first :: others => first ++ separator :: glue separator others

end RemoteEval.Text
