/-! Texts cut at a separator. -/

namespace Highlighter.Text

/-- The pieces between separators, also the empty ones; there is always at least one. -/
def pieces (separator : Char) : List Char → List (List Char)
  | [] => [[]]
  | c :: cs =>
    if c = separator then [] :: pieces separator cs
    else match pieces separator cs with
      | [] => [[c]]
      | p :: ps => (c :: p) :: ps

/-- The pieces that are not empty. -/
def parts (separator : Char) (cs : List Char) : List (List Char) :=
  (pieces separator cs).filter (!·.isEmpty)

end Highlighter.Text
