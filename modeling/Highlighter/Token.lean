import Highlighter.Category

/-! Tokens and the places they stand at. -/

namespace Highlighter

/-- Lines and columns count from 0; a column counts characters. -/
structure Location where
  line : Nat
  column : Nat
  deriving DecidableEq, Repr

namespace Location

def start : Location := ⟨0, 0⟩

/-- The location after one more character. -/
def next (l : Location) (c : Char) : Location :=
  if c = '\n' then ⟨l.line + 1, 0⟩ else ⟨l.line, l.column + 1⟩

/-- The location after a piece of text. -/
def after (l : Location) (cs : List Char) : Location := cs.foldl next l

@[simp] theorem after_nil (l : Location) : l.after [] = l := rfl

@[simp] theorem after_cons (l : Location) (c : Char) (cs : List Char) :
    l.after (c :: cs) = (l.next c).after cs := rfl

theorem after_append (l : Location) (cs ds : List Char) :
    l.after (cs ++ ds) = (l.after cs).after ds := List.foldl_append

end Location

/-- A piece of source text with its category and the location of its first character. -/
structure Token where
  location : Location
  kind : Category
  text : String
  deriving DecidableEq, Repr

/-- The text that a list of tokens covers. -/
def Token.joined (tokens : List Token) : List Char := tokens.flatMap (·.text.toList)

end Highlighter
