import Highlighter.Lexicon.Cpp
import Highlighter.Lexicon.Engine
import Highlighter.Lexicon.Standard
import Highlighter.Token

/-! What the spelling of a C++ word says: naming conventions of the engine, and
membership in the word lists. -/

namespace Highlighter

namespace Category

/-- The categories that say no more than that a word is some identifier. -/
def isOpenName (c : Category) : Bool :=
  c = name || c = nameOther || c = nameClass || c = nameNamespace

end Category

namespace Names

def isUpperOrMark (c : Char) : Bool := c.isUpper || c.isDigit || c == '_'

def isIdentTail (c : Char) : Bool := c.isAlphanum || c == '_'

/-- A type letter, a capital and at least one more character, as in `FString`. -/
def hasTypeForm (s : String) : Bool :=
  match s.toList with
  | c :: d :: e :: cs => "FUATEISN".toList.contains c && d.isUpper && (e :: cs).all isIdentTail
  | _ => false

/-- The type letter of an enumeration, a capital and at least one more character. -/
def hasEnumForm (s : String) : Bool :=
  match s.toList with
  | 'E' :: d :: e :: cs => d.isUpper && (e :: cs).all isIdentTail
  | _ => false

/-- `Log`, a capital and at least one more letter or digit. -/
def hasLogForm (s : String) : Bool :=
  match s.toList with
  | 'L' :: 'o' :: 'g' :: c :: d :: cs => c.isUpper && (d :: cs).all Char.isAlphanum
  | _ => false

/-- Capitals before `_API`. -/
def hasExportForm (s : String) : Bool :=
  match s.toList with
  | c :: cs => c.isUpper && cs.all isUpperOrMark && 4 ≤ cs.length &&
      cs.drop (cs.length - 4) == "_API".toList
  | [] => false

def isEngineType (s : String) : Bool := hasTypeForm s || Lexicon.Engine.primitiveTypes.contains s

def isCoreMacro (s : String) : Bool := Lexicon.Engine.coreMacros.contains s

def isUtilityMacro (s : String) : Bool := Lexicon.Engine.utilityMacros.contains s

def isLibraryType (s : String) : Bool := Lexicon.Standard.types.contains s

def isStream (s : String) : Bool := Lexicon.Standard.streams.contains s

def isLibraryFunction (s : String) : Bool := Lexicon.Standard.functions.contains s

def isKeyword (s : String) : Bool := Lexicon.Cpp.keywords.contains s

def isControlKeyword (s : String) : Bool := Lexicon.Cpp.controlKeywords.contains s

def isNeverCalled (s : String) : Bool := Lexicon.Cpp.neverCalled.contains s

def isSpecifier (s : String) : Bool := Lexicon.Cpp.specifiers.contains s

end Names

/-! ### Tokens and what follows them -/

namespace Token

def is (t : Token) (kind : Category) (text : String) : Bool := t.kind = kind && t.text = text

/-- `*`, `&`, `&&`, or the sign that closes a template argument list. -/
def isDeclarator (text : String) : Bool :=
  text = "*" || text = "&" || text = "&&" || (text ≠ "->" && text.toList.getLast? = some '>')

/-- Whether the token opens an argument list. -/
def opensArguments (t : Token) : Bool := t.is .punctuation "(" || t.is .operator "<"

/-- The tokens from the first one on that is not plain text. -/
def skipText (ts : List Token) : List Token := ts.dropWhile (·.kind = .text)

/-- The first token that is not plain text. -/
def next? (ts : List Token) : Option Token := (skipText ts).head?

end Token

end Highlighter
