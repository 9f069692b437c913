import Highlighter.Json.Skip

/-! Reading JSON text as values of known types: strings, null, objects whose members
are taken one by one, and lists with an element for each field. -/

namespace Highlighter.Json

/-- The fault that a value of another type is found, whatever comes behind it. -/
def mismatch (expected : String) (cs : List Char) : Stop :=
  let found (name : String) (r : Except Stop (List Char)) : Stop :=
    match r with
    | .ok cs => .here (.mismatch name expected) cs
    | .error e => e
  let number (r : Read Numeral) : Stop :=
    match r with
    | .ok (n, cs) => .here (.mismatch n.described expected) cs
    | .error e => e
  match cs with
  | [] => .here .endInValue []
  | 'n' :: cs => found "null" (skipWord "ull".toList cs)
  | 't' :: cs => found ("boolean " ++ marked "true") (skipWord "rue".toList cs)
  | 'f' :: cs => found ("boolean " ++ marked "false") (skipWord "alse".toList cs)
  | '"' :: cs =>
    match readString cs with
    | .ok (s, cs) => .here (.mismatch ("string " ++ Text.quoted s) expected) cs
    | .error e => e
  | '-' :: cs => number (readNumeral true cs)
  | '[' :: _ => .here (.mismatch "sequence" expected) cs
  | '{' :: _ => .here (.mismatch "map" expected) cs
  | c :: _ => if c.isDigit then number (readNumeral false cs) else .ahead .noValue cs

/-- A string value. -/
def readText (expected : String) (cs : List Char) : Read String :=
  match skipBlanks cs with
  | '"' :: cs => readString cs
  | cs => .error (mismatch expected cs)

def readNull (cs : List Char) : Except Stop (List Char) :=
  match skipBlanks cs with
  | 'n' :: cs => skipWord "ull".toList cs
  | cs => .error (mismatch "unit" cs)

/-! ### Objects -/

/-- The text of the next member of an object, after the quote that opens its name;
none at the closing brace. -/
def nextMember (first : Bool) (cs : List Char) : Except Stop (Option (List Char)) :=
  match skipBlanks cs with
  | [] => .error (.here .endInObject [])
  | '}' :: _ => .ok none
  | c :: cs =>
    if first then
      if c = '"' then .ok (some cs) else .error (.ahead .keyNotString (c :: cs))
    else if c ≠ ',' then .error (.ahead .noObjectComma (c :: cs))
    else match skipBlanks cs with
      | '"' :: cs => .ok (some cs)
      | [] => .error (.here .endInValue [])
      | '}' :: cs => .error (.ahead .trailingComma ('}' :: cs))
      | cs => .error (.ahead .keyNotString cs)

/-- The members of an object, at most `n`. Each of them changes a state by its name
and the text behind the name. -/
def readMembers {α : Type} (member : α → String → List Char → Read α) :
    Nat → Bool → α → List Char → Read α
  | 0, _, _, cs => .error (.here .endInObject cs)
  | n + 1, first, a, cs =>
    match nextMember first cs with
    | .error e => .error e
    | .ok none => .ok (a, (skipBlanks cs).drop 1)
    | .ok (some cs) =>
      (readString cs).andThen fun name cs =>
        (member a name cs).andThen fun a cs => readMembers member n false a cs

/-- An object after its opening brace. -/
def readObject {α : Type} (member : α → String → List Char → Read α) (a : α) (cs : List Char) :
    Read α :=
  readMembers member (cs.length + 1) true a cs

/-! ### Lists -/

/-- The text of the next element of a list; none at the closing bracket. -/
def nextElement (first : Bool) (cs : List Char) : Except Stop (Option (List Char)) :=
  match skipBlanks cs with
  | [] => .error (.here .endInList [])
  | ']' :: _ => .ok none
  | c :: cs =>
    if first then .ok (some (c :: cs))
    else if c ≠ ',' then .error (.ahead .noListComma (c :: cs))
    else match skipBlanks cs with
      | [] => .error (.here .endInValue [])
      | ']' :: cs => .error (.ahead .trailingComma (']' :: cs))
      | cs => .ok (some cs)

/-- The end of a list of which all elements are read. -/
def readListEnd (cs : List Char) : Except Stop (List Char) :=
  match skipBlanks cs with
  | ']' :: cs => .ok cs
  | [] => .error (.here .endInList [])
  | ',' :: cs =>
    match skipBlanks cs with
    | ']' :: cs => .error (.ahead .trailingComma (']' :: cs))
    | cs => .error (.ahead .trailingText cs)
  | cs => .error (.ahead .trailingText cs)

/-- A list after its opening bracket, with at most one element for each reader. The
elements change a state; those at the end may be missing. -/
def readElements {α : Type} : List (α → List Char → Read α) → Bool → α → List Char → Read α
  | [], _, a, cs => (readListEnd cs).map (a, ·)
  | element :: elements, first, a, cs =>
    match nextElement first cs with
    | .error e => .error e
    | .ok none => (readListEnd cs).map (a, ·)
    | .ok (some cs) => (element a cs).andThen fun a cs => readElements elements false a cs

/-! ### Whole texts -/

/-- Nothing but blanks may stand behind the value of a text. -/
def readAll {α : Type} (value : List Char → Read α) (text : List Char) : Except Stop α :=
  (value text).andThen fun a cs =>
    match skipBlanks cs with
    | [] => .ok a
    | cs => .error (.ahead .trailingText cs)

end Highlighter.Json
