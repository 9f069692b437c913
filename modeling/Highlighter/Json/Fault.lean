import Highlighter.Text.Quoted
import Highlighter.Text.Utf8

/-! Faults of JSON text, and the place at which each of them is reported. -/

namespace Highlighter.Json

/-- What is wrong with a text. -/
inductive Fault where
  | endInList | endInObject | endInString | endInValue
  | noColon | noListComma | noObjectComma
  | badWord | noValue | badEscape | badNumber | numberOutOfRange | control
  | keyNotString | loneSurrogate | unpairedSurrogate | trailingComma | trailingText
  /-- A value of another type than the one that is expected here. -/
  | mismatch (found expected : String)
  | unknownVariant (name : String) (known : List String)
  | duplicateField (name : String)
  deriving DecidableEq, Repr

/-- A text between grave accents. -/
def marked (s : String) : String := "\x60" ++ s ++ "\x60"

def Fault.message : Fault → String
  | endInList => "EOF while parsing a list"
  | endInObject => "EOF while parsing an object"
  | endInString => "EOF while parsing a string"
  | endInValue => "EOF while parsing a value"
  | noColon => "expected " ++ marked ":"
  | noListComma => "expected " ++ marked "," ++ " or " ++ marked "]"
  | noObjectComma => "expected " ++ marked "," ++ " or " ++ marked "\x7d"
  | badWord => "expected ident"
  | noValue => "expected value"
  | badEscape => "invalid escape"
  | badNumber => "invalid number"
  | numberOutOfRange => "number out of range"
  | control => "control character (\\u0000-\\u001F) found while parsing a string"
  | keyNotString => "key must be a string"
  | loneSurrogate => "lone leading surrogate in hex escape"
  | unpairedSurrogate => "unexpected end of hex escape"
  | trailingComma => "trailing comma"
  | trailingText => "trailing characters"
  | mismatch found expected => "invalid type: " ++ found ++ ", expected " ++ expected
  | unknownVariant name known =>
    "unknown variant " ++ marked name ++ ", expected " ++ " or ".intercalate (known.map marked)
  | duplicateField name => "duplicate field " ++ marked name

/-- A fault, the text that was left when it was found, and how many bytes of that
text belong to the faulty part. -/
structure Stop where
  fault : Fault
  rest : List Char
  bytes : Nat
  deriving DecidableEq, Repr

namespace Stop

/-- A fault in what was read last. -/
def here (f : Fault) (rest : List Char) : Stop := ⟨f, rest, 0⟩

/-- A fault in the next byte, if there is one. -/
def ahead (f : Fault) (rest : List Char) : Stop := ⟨f, rest, if rest.isEmpty then 0 else 1⟩

/-- The number of bytes of the text up to the fault. -/
def offset (text : List Char) (s : Stop) : Nat :=
  (Text.utf8 text).length - (Text.utf8 s.rest).length + s.bytes

end Stop

/-- The line, counted from 1, and the number of bytes in it, after some bytes of a text. -/
def lineAndColumn (bytes : List UInt8) : Nat × Nat :=
  (bytes.count 10 + 1, (bytes.reverse.takeWhile (· != 10)).length)

/-- The fault and its place. -/
def Stop.message (text : List Char) (s : Stop) : String :=
  let (line, column) := lineAndColumn ((Text.utf8 text).take (s.offset text))
  s.fault.message ++ s!" at line {line} column {column}"

/-- A value and the text behind it, or the fault. -/
abbrev Read (α : Type) := Except Stop (α × List Char)

/-- Goes on with the text behind a value. -/
def Read.andThen {α β : Type} (r : Read α) (f : α → List Char → Except Stop β) : Except Stop β :=
  match r with
  | .ok (a, cs) => f a cs
  | .error e => .error e

@[simp] theorem Read.andThen_ok {α β : Type} (a : α) (cs : List Char)
    (f : α → List Char → Except Stop β) : Read.andThen (.ok (a, cs)) f = f a cs := rfl

/-- The characters that may stand between the parts of a text. -/
def isBlank (c : Char) : Bool := c = ' ' || c = '\n' || c = '\t' || c = '\r'

def skipBlanks (cs : List Char) : List Char := cs.dropWhile isBlank

end Highlighter.Json
