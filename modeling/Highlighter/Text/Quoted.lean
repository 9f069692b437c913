import Highlighter.Text.PrintTable

/-! Quoted texts for listings and messages, in which every character can be told:
the common controls have short escapes, and a character that does not print or
that joins the one before it is written by its code point. -/

namespace Highlighter.Text

def isPrintable (c : Char) : Bool := !unprintableRanges.covers c.toNat

def isExtending (c : Char) : Bool := extendRanges.covers c.toNat

/-- The code point in lower-case hexadecimal digits, in braces. -/
def codeEscape (c : Char) : List Char :=
  "\\u\x7b".toList ++ Nat.toDigits 16 c.toNat ++ ['\x7d']

/-- One character inside quotes of the given kind. -/
def quoteChar (mark c : Char) : List Char :=
  if c = '\x00' then ['\\', '0']
  else if c = '\t' then ['\\', 't']
  else if c = '\r' then ['\\', 'r']
  else if c = '\n' then ['\\', 'n']
  else if c = '\\' || c = mark then ['\\', c]
  else if isExtending c || !isPrintable c then codeEscape c
  else [c]

/-- A text in double quotes. -/
def quoted (s : String) : String :=
  String.ofList ('"' :: s.toList.flatMap (quoteChar '"') ++ ['"'])

/-- A character in single quotes. -/
def quotedChar (c : Char) : String := String.ofList ('\'' :: quoteChar '\'' c ++ ['\''])

end Highlighter.Text
