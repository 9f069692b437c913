import Highlighter.Text.WordTable

/-! The Unicode character classes that patterns and tag look-up share. -/

namespace Highlighter.Text

def isWord (c : Char) : Bool := wordRanges.covers c.toNat

def isDigit (c : Char) : Bool := digitRanges.covers c.toNat

def isSpace (c : Char) : Bool := spaceRanges.covers c.toNat

/-- Removes the white space at both ends. -/
def trim (cs : List Char) : List Char :=
  ((cs.dropWhile isSpace).reverse.dropWhile isSpace).reverse

/-- Below 128 the word characters are the letters, the digits and the underscore. -/
theorem isWord_ascii (c : Char) (h : c.toNat < 128) : isWord c = (c.isAlphanum || c == '_') := by
  have key : ∀ n : Fin 128, isWord (Char.ofNat n) =
      ((Char.ofNat n).isAlphanum || Char.ofNat n == '_') := by decide
  have := key ⟨c.toNat, h⟩
  rwa [Char.ofNat_toNat] at this

end Highlighter.Text
