import Highlighter.Classify.MacroScope
import Highlighter.Classify.Symbols

/-! The second pass over C++ tokens. It decides what the scanner could not: which
names are types, macros, calls, members, keys and variables. Texts and locations
stay as they are. -/

namespace Highlighter

/-! ### Single names -/

/-- What the neighbours of a single name say about it. -/
structure Standing where
  behindNamespace : Bool
  insideArguments : Bool
  isKey : Bool
  isCalled : Bool
  behindAccess : Bool
  deriving DecidableEq, Repr

namespace Standing

open Names

/-- Whether a name that follows what was decided on last is declared by it. -/
def afterType (last : Option (Category × String)) (s : Symbols) : Bool :=
  match last with
  | some (.nameClass, _) | some (.keywordType, _) => true
  | some (.name, text) => s.hasType text
  | some (.keyword, text) => isSpecifier text
  | some (.operator, text) => Token.isDeclarator text
  | _ => false

/-- The category that the first convention to apply gives to a name. -/
def convention? (n : Standing) (s : Symbols) (last : Option (Category × String)) (name : String) :
    Option Category :=
  if isCoreMacro name then some .nameDecorator
  else if isUtilityMacro name then some .nameBuiltin
  else if n.insideArguments && !isEngineType name then
    some (if n.isKey then .nameProperty else .nameConstant)
  else if isEngineType name then some .nameClass
  else if hasLogForm name then some .nameBuiltin
  else if isStream name then some .nameVariableGlobal
  else if isLibraryFunction name then some .nameFunction
  else if n.isCalled && !isNeverCalled name then some .nameFunction
  else if n.behindAccess || afterType last s then some .nameVariableInstance
  else if s.hasVariable name then some .nameVariableInstance
  else none

/-- The category of a name: what its declaration says, or else a convention. -/
def nameKind (n : Standing) (s : Symbols) (last : Option (Category × String)) (t : Token) :
    Category :=
  if n.behindNamespace then .nameNamespace
  else if s.declaresType t.text then .nameClass
  else (n.convention? s last t.text).getD t.kind

end Standing

/-! ### The state of the pass -/

/-- The state of the pass in front of a token. -/
structure Context where
  /-- The last token that is not plain text, as it came in. -/
  before : Option Token
  /-- The category and the text that were decided on last. -/
  last : Option (Category × String)
  scope : MacroScope
  /-- Categories that are already decided for the next tokens. -/
  decided : List Category
  deriving DecidableEq, Repr

namespace Context

open Token Names

def start : Context := ⟨none, none, none, []⟩

/-! ### Macro scope -/

/-- The scope at a token: a core macro opens one if a parenthesis follows, and
punctuation is tracked. -/
def scopeAt (s : MacroScope) (t : Token) (rest : List Token) : MacroScope :=
  let s :=
    if (t.kind.isOpenName || t.kind = .nameDecorator) && isCoreMacro t.text &&
        (next? rest).any (·.is .punctuation "(") then s.enter
    else s
  if t.kind = .punctuation then s.trackAll t.text else s

/-! ### Keywords and qualified names -/

/-- Words that the scanner took for names are keywords all the same. -/
def keyword? (t : Token) : Option Category :=
  if (t.kind.isA .name || t.kind.isA .keyword) && isKeyword t.text then
    some (if isControlKeyword t.text then .keywordDeclaration else .keyword)
  else none

/-- The names that follow, each directly behind a `::`. -/
def segments : List Token → List Token
  | op :: t :: rest =>
    if op.is .operator "::" && t.kind.isA .name then t :: segments rest else []
  | _ => []

/-- Whether an argument list follows. -/
def isCalled (rest : List Token) : Bool := (next? rest).any opensArguments

/-- The category of the last part of a qualified name. -/
def tailKind (root parent name : String) (called : Bool) : Category :=
  if hasEnumForm parent then .nameConstant
  else if root = "std" && isStream name then .nameVariableGlobal
  else if root = "std" && isLibraryFunction name then .nameFunction
  else if root = "std" && isLibraryType name then .nameClass
  else if called then .nameFunction
  else .nameClass

/-- The categories of the tokens behind the first name of a qualified name. -/
def chainKinds : List Token → Category → List Category
  | [], _ => []
  | [_], tail => [.operator, tail]
  | _ :: t :: ts, tail => .operator :: .nameNamespace :: chainKinds (t :: ts) tail

/-- The last part of a qualified name and its category, if parts follow `t`. -/
def chainTail? (t : Token) (rest : List Token) : Option (Token × Category) :=
  let parts := segments rest
  match parts.getLast? with
  | none => none
  | some tail =>
    let parent := (parts.dropLast.getLast?.getD t).text
    some (tail, tailKind t.text parent tail.text (isCalled (rest.drop (2 * parts.length))))

/-! ### Neighbours of a single name -/

/-- Whether the name is a key: an equals sign and a string follow. -/
def isKey (rest : List Token) : Bool :=
  match skipText rest with
  | eq :: rest => eq.is .operator "=" && (next? rest).any (·.kind.isA .literalString)
  | [] => false

def afterNamespace (c : Context) : Bool :=
  c.last.any fun (kind, text) => kind.isA .keyword && text = "namespace"

/-- The signs before a member. -/
def opensMember (t : Token) : Bool := t.is .operator "->" || t.is .punctuation "."

def afterMemberAccess (c : Context) : Bool := c.before.any opensMember

/-- The neighbourhood of a name in front of `rest`. -/
def standing (c : Context) (rest : List Token) : Standing :=
  ⟨c.afterNamespace, c.scope.insideArguments, isKey rest, isCalled rest, c.afterMemberAccess⟩

/-! ### The pass -/

/-- Goes past a token with the given category. -/
def pass (c : Context) (t : Token) (kind : Category) : Context :=
  { c with before := some t, last := some (kind, t.text) }

/-- The category of a token and the state behind it. -/
def step (c : Context) (s : Symbols) (t : Token) (rest : List Token) : Category × Context :=
  match c.decided with
  | kind :: kinds => (kind, { c with before := some t, decided := kinds })
  | [] =>
    if t.kind = .text then (.text, c)
    else
      let c := { c with scope := scopeAt c.scope t rest }
      match keyword? t with
      | some kind => (kind, c.pass t kind)
      | none =>
        if t.kind.isOpenName then
          match chainTail? t rest with
          | some (tail, kind) =>
            (.nameNamespace,
              { c with
                before := some t
                last := some (kind, tail.text)
                decided := chainKinds (segments rest) kind })
          | none =>
            let kind := (c.standing rest).nameKind s c.last t
            (kind, c.pass t kind)
        else (t.kind, c.pass t t.kind)

def reclassify (s : Symbols) (c : Context) : List Token → List Token
  | [] => []
  | t :: rest =>
    let (kind, c) := c.step s t rest
    { t with kind := kind } :: reclassify s c rest

end Context

/-- The tokens with the categories that their context gives them. -/
def classify (tokens : List Token) : List Token :=
  Context.reclassify (Symbols.collect tokens) .start tokens

end Highlighter
