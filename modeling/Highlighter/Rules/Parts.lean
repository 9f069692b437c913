import Highlighter.Rule

/-! Patterns and rule forms that several rule sets use. -/

namespace Highlighter

namespace CharSet

/-- The characters of none of the sets. -/
def except (l : List CharSet) : CharSet := compl (anyOf l)

def nonSpace : CharSet := compl space

def identHead : CharSet := anyOf [letter, char '_']

def identTail : CharSet := anyOf [letter, asciiDigit, char '_']

def hexDigit : CharSet := anyOf [asciiDigit, range 'a' 'f', range 'A' 'F']

end CharSet

namespace Pattern

/-- The patterns as groups, numbered from `i` on. -/
def numbered : Nat → List Pattern → List Pattern
  | _, [] => []
  | i, p :: ps => group i p :: numbered (i + 1) ps

/-- Patterns that fill a line from its start to its end. -/
def line (ps : List Pattern) : Pattern := seqs (lineStart :: (ps ++ [lineEnd]))

def blanks : Pattern := plus (one .blank)

def optBlanks : Pattern := star (one .blank)

def digits : Pattern := plus (one .digit)

/-- What is left of the line. -/
def toLineEnd : Pattern := star dot

def identifier : Pattern := seqs [one .identHead, star (one .identTail)]

/-- `0x` and hexadecimal digits. -/
def hexNumber : Pattern := seqs [char '0', one (.of "xX"), plus (one .hexDigit)]

/-- A text in double quotes, on one line. -/
def doubleQuoted : Pattern := seqs [char '"', star (one (.except [.of "\"\n"])), char '"']

/-- A text in single quotes, on one line. -/
def singleQuoted : Pattern := seqs [char '\'', star (one (.except [.of "'\n"])), char '\'']

end Pattern

namespace Rule

/-- A rule for adjacent fields, each with its category, between conditions. -/
def fields (before : List Pattern) (parts : List (Pattern × Category)) (after : List Pattern) :
    Rule :=
  .groups (.seqs (before ++ Pattern.numbered 1 (parts.map (·.1)) ++ after)) (parts.map (·.2))

/-- A rule for a line that is divided into fields. -/
def line (parts : List (Pattern × Category)) : Rule := fields [.lineStart] parts [.lineEnd]

/-- A rule for fields at the start of a line. -/
def lineHead (parts : List (Pattern × Category)) : Rule := fields [.lineStart] parts []

end Rule

end Highlighter
