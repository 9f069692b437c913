import Highlighter.Text.CaseFolding
import Highlighter.Text.CharClass

/-! Sets of characters, as a pattern names them. -/

namespace Highlighter

inductive CharSet where
  /-- The characters between two ends, the ends included. -/
  | range (first last : Char)
  /-- Word characters, as in `\w`. -/
  | word
  /-- Decimal digits, as in `\d`. -/
  | digit
  /-- White space, as in `\s`. -/
  | space
  | nothing
  | union (s t : CharSet)
  | inter (s t : CharSet)
  | compl (s : CharSet)
  /-- The characters that differ from a member only in case. -/
  | anyCase (s : CharSet)
  deriving DecidableEq, Repr

namespace CharSet

def has : CharSet → Char → Bool
  | range first last, c => first ≤ c && c ≤ last
  | word, c => Text.isWord c
  | digit, c => Text.isDigit c
  | space, c => Text.isSpace c
  | nothing, _ => false
  | union s t, c => s.has c || t.has c
  | inter s t, c => s.has c && t.has c
  | compl s, c => !s.has c
  | anyCase s, c => (Text.caseVariants c).any s.has

def char (c : Char) : CharSet := range c c

def all : CharSet := compl nothing

/-- The characters of a text. -/
def of (s : String) : CharSet := s.toList.foldr (fun c s => union (char c) s) nothing

/-- The union of several sets. -/
def anyOf (l : List CharSet) : CharSet := l.foldr union nothing

def lower : CharSet := range 'a' 'z'

def upper : CharSet := range 'A' 'Z'

def letter : CharSet := union upper lower

def asciiDigit : CharSet := range '0' '9'

def blank : CharSet := of " \t"

def newline : CharSet := char '\n'

@[simp] theorem has_char (c d : Char) : (char c).has d = (d == c) := by
  simp only [char, has, Char.le_def]
  rw [Bool.eq_iff_iff]
  simp only [Bool.and_eq_true, decide_eq_true_eq, beq_iff_eq]
  exact ⟨fun h => Char.ext (UInt32.le_antisymm h.2 h.1), fun h => h ▸ ⟨UInt32.le_refl _, UInt32.le_refl _⟩⟩

@[simp] theorem has_of (s : String) (c : Char) : (of s).has c = s.toList.contains c := by
  unfold of
  induction s.toList with
  | nil => rfl
  | cons d l ih => simp only [List.foldr_cons, has, has_char, ih, List.contains_cons]

@[simp] theorem has_anyOf (l : List CharSet) (c : Char) : (anyOf l).has c = l.any (·.has c) := by
  unfold anyOf
  induction l with
  | nil => rfl
  | cons s l ih => simp [has, ih]

end CharSet

end Highlighter
