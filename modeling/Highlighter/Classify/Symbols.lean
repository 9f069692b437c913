import Highlighter.Classify.Names

/-! The names that a list of tokens declares. -/

namespace Highlighter

/-- Names declared somewhere in a list of tokens, each once. -/
structure Symbols where
  /-- Template parameters. -/
  parameters : List String
  types : List String
  vars : List String
  deriving DecidableEq, Repr

namespace Symbols

open Token Names

def empty : Symbols := ⟨[], [], []⟩

def addParameter (s : Symbols) (name : String) : Symbols :=
  { s with parameters := s.parameters.insert name }

def addType (s : Symbols) (name : String) : Symbols := { s with types := s.types.insert name }

def addVariable (s : Symbols) (name : String) : Symbols :=
  { s with vars := s.vars.insert name }

def hasType (s : Symbols) (name : String) : Bool := s.types.contains name

def hasParameter (s : Symbols) (name : String) : Bool := s.parameters.contains name

def hasVariable (s : Symbols) (name : String) : Bool := s.vars.contains name

/-- Whether the name is that of a type or of a template parameter. -/
def declaresType (s : Symbols) (name : String) : Bool := s.hasType name || s.hasParameter name

/-! ### Declarations that begin with a word -/

/-- Whether a parameter name follows: `typename`, or `class` in a parameter list. -/
def opensParameter (before : Option Token) (t : Token) : Bool :=
  (t.kind.isA .keyword && t.text = "typename") ||
    (t.is .keyword "class" && before.any fun p => p.text = "<" || p.text = ",")

/-- The parameter name at the front, unless it qualifies another name. -/
def parameterName (rest : List Token) : Option String :=
  match skipText rest with
  | name :: rest =>
    if name.kind.isOpenName && !(next? rest).any (·.is .operator "::") then some name.text
    else none
  | [] => none

/-- Whether a class is declared. -/
def opensClass (t : Token) : Bool :=
  t.kind = .keyword && (t.text = "class" || t.text = "struct" || t.text = "union")

/-- Whether a word may stand between `class` and the declared name. -/
def isExport (t : Token) : Bool :=
  (t.kind.isOpenName || t.kind = .nameDecorator) && (hasExportForm t.text || isCoreMacro t.text)

/-- The name that a class declaration declares, behind export macros and
reflection macros. -/
def className : List Token → Option String
  | [] => none
  | t :: rest =>
    if t.kind = .text || isExport t then className rest
    else if t.kind.isOpenName then some t.text else none

/-- The name at the front, if an equals sign follows it. -/
def aliasName (rest : List Token) : Option String :=
  match skipText rest with
  | name :: rest =>
    if name.kind.isOpenName && (next? rest).any (·.is .operator "=") then some name.text
    else none
  | [] => none

/-! ### Declarations that begin with a type -/

/-- Whether a token names a type, as far as the symbols tell. -/
def isType (s : Symbols) (t : Token) : Bool :=
  t.kind = .keywordType ||
    (t.kind.isOpenName &&
      (s.declaresType t.text || isLibraryType t.text || isEngineType t.text))

/-- The first token behind declarators. -/
def declared? : List Token → Option Token
  | [] => none
  | t :: rest =>
    if t.kind = .text || (t.kind = .operator && isDeclarator t.text) then declared? rest else some t

/-- The variable that is declared behind a type, unless the name is that of a type. -/
def variableName (s : Symbols) (rest : List Token) : Option String :=
  match declared? rest with
  | some t =>
    if t.kind.isOpenName && !s.hasType t.text && !isEngineType t.text then some t.text
    else none
  | none => none

/-! ### Collecting -/

def noteParameter (s : Symbols) (before : Option Token) (t : Token) (rest : List Token) : Symbols :=
  if opensParameter before t then (parameterName rest).elim s s.addParameter else s

def noteClass (s : Symbols) (t : Token) (rest : List Token) : Symbols :=
  if opensClass t then (className rest).elim s s.addType else s

def noteAlias (s : Symbols) (t : Token) (rest : List Token) : Symbols :=
  if t.is .keyword "using" then (aliasName rest).elim s s.addType else s

def noteVariable (s : Symbols) (t : Token) (rest : List Token) : Symbols :=
  if s.isType t then (s.variableName rest).elim s s.addVariable else s

/-- Adds what a token declares, given the last token before it that is not plain
text and the tokens after it. -/
def note (s : Symbols) (before : Option Token) (t : Token) (rest : List Token) : Symbols :=
  (((s.noteParameter before t rest).noteClass t rest).noteAlias t rest).noteVariable t rest

def collectFrom (s : Symbols) (before : Option Token) : List Token → Symbols
  | [] => s
  | t :: rest =>
    collectFrom (s.note before t rest) (if t.kind = .text then before else some t) rest

/-- Everything that the tokens declare, in one pass from left to right. -/
def collect (tokens : List Token) : Symbols := collectFrom empty none tokens

end Symbols

end Highlighter
