import Highlighter.Pattern.Reader

/-! The pattern texts of word lists. -/

namespace Highlighter.Pattern

/-- The characters that a pattern text reads as signs somewhere. -/
def isSign (c : Char) : Bool := "\\.+*?()|[]\x7b\x7d^$#&-~".toList.contains c

def escapeChars : List Char → List Char
  | [] => []
  | c :: cs => if isSign c then '\\' :: c :: escapeChars cs else c :: escapeChars cs

/-- The text with a backslash before every sign. -/
def escape (s : String) : String := String.ofList (escapeChars s.toList)

/-- The text of a pattern for any of the given words. -/
def oneOfText (words : List String) : String :=
  "(?:" ++ "|".intercalate (words.map escape) ++ ")"

/-- The text of a pattern for any of the given words between word boundaries. -/
def wholeWordText (words : List String) : String := "\\b" ++ oneOfText words ++ "\\b"

end Highlighter.Pattern
