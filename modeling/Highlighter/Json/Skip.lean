import Highlighter.Json.Numeral
import Highlighter.Json.StringText

/-! Passing over a value of JSON text. Only its form is checked; the open lists and
objects are on a stack, so that values may nest to any depth. -/

namespace Highlighter.Json

/-- The rest of a word. -/
def skipWord : List Char → List Char → Except Stop (List Char)
  | [], cs => .ok cs
  | _ :: _, [] => .error (.here .endInValue [])
  | w :: ws, c :: cs => if c = w then skipWord ws cs else .error (.ahead .badWord (c :: cs))

/-- The colon behind the name of a member. -/
def skipColon (cs : List Char) : Except Stop (List Char) :=
  match skipBlanks cs with
  | ':' :: cs => .ok cs
  | [] => .error (.here .endInObject [])
  | cs => .error (.ahead .noColon cs)

/-- A list or an object that is still open. -/
inductive Frame where
  | list | object
  deriving DecidableEq, Repr

namespace Frame

def close : Frame → Char
  | list => ']'
  | object => '\x7d'

/-- The fault of a text that ends in it. -/
def endFault : Frame → Fault
  | list => .endInList
  | object => .endInObject

/-- The fault of a part that no comma sets off. -/
def commaFault : Frame → Fault
  | list => .noListComma
  | object => .noObjectComma

end Frame

/-- What stands before a value: the name of a member and its colon. -/
def skipName (f : Frame) (cs : List Char) : Except Stop (List Char) :=
  match f with
  | .list => .ok cs
  | .object =>
    match skipBlanks cs with
    | '"' :: cs => do skipColon (← skipString cs)
    | [] => .error (.here .endInObject [])
    | cs => .error (.ahead .keyNotString cs)

/-- Goes on to the next value, and closes what is closed before it. There is no next
value if nothing is left open. -/
def skipToValue (first : Bool) : List Frame → List Char → Except Stop (List Frame × List Char)
  | [], cs => .ok ([], cs)
  | f :: fs, cs =>
    match skipBlanks cs with
    | [] => .error (.here f.endFault [])
    | c :: cs =>
      if c = ',' && !first then do return (f :: fs, ← skipName f cs)
      else if c = f.close then skipToValue false fs cs
      else if first then do return (f :: fs, ← skipName f (c :: cs))
      else .error (.ahead f.commaFault (c :: cs))

/-- A value that is neither a list nor an object. -/
def skipScalar : List Char → Except Stop (List Char)
  | [] => .error (.here .endInValue [])
  | 'n' :: cs => skipWord "ull".toList cs
  | 't' :: cs => skipWord "rue".toList cs
  | 'f' :: cs => skipWord "alse".toList cs
  | '"' :: cs => skipString cs
  | '-' :: cs => skipNumeral cs
  | c :: cs => if c.isDigit then skipNumeral (c :: cs) else .error (.ahead .noValue (c :: cs))

/-- The start of a value: all of a scalar, or the bracket that opens a frame. -/
def skipStart (fs : List Frame) (cs : List Char) : Except Stop (List Frame × List Char) :=
  match skipBlanks cs with
  | '[' :: cs => skipToValue true (.list :: fs) cs
  | '{' :: cs => skipToValue true (.object :: fs) cs
  | cs => do skipToValue false fs (← skipScalar cs)

/-- Values until nothing is open, at most `n`. -/
def skipValues : Nat → List Frame → List Char → Except Stop (List Char)
  | 0, _, cs => .error (.here .endInValue cs)
  | n + 1, fs, cs => do
    let (fs, cs) ← skipStart fs cs
    if fs.isEmpty then return cs else skipValues n fs cs

/-- The text behind a value. -/
def skipValue (cs : List Char) : Except Stop (List Char) := skipValues (cs.length + 1) [] cs

end Highlighter.Json
