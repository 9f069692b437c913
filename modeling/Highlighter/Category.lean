/-! Token categories and their hierarchy. -/

namespace Highlighter

/-- What a piece of text is. The `generic` categories belong to transcripts and
have no common ancestor. -/
inductive Category where
  | text | error
  | keyword | keywordDeclaration | keywordType | keywordReserved | keywordPseudo
  | name | nameAttribute | nameBuiltin | nameClass | nameConstant | nameDecorator | nameFunction
  | nameNamespace | nameOther | nameProperty | nameVariable | nameVariableGlobal
  | nameVariableInstance
  | literal | literalNumber | literalNumberFloat | literalNumberHex | literalNumberInteger
  | literalNumberOct | literalNumberBin | literalNumberOther | literalString | literalStringChar
  | literalStringEscape
  | operator | punctuation
  | comment | commentSingle | commentMultiline | commentPreproc | commentPreprocFile
  | genericEmph | genericError | genericOutput | genericPrompt | genericStrong
  deriving DecidableEq, Repr

namespace Category

/-- Every category, in the order of the listing. -/
def all : List Category :=
  [.text, .error, .keyword, .keywordDeclaration, .keywordType, .keywordReserved, .keywordPseudo,
   .name, .nameAttribute, .nameBuiltin, .nameClass, .nameConstant, .nameDecorator, .nameFunction,
   .nameNamespace, .nameOther, .nameProperty, .nameVariable, .nameVariableGlobal,
   .nameVariableInstance, .literal, .literalNumber, .literalNumberFloat, .literalNumberHex,
   .literalNumberInteger, .literalNumberOct, .literalNumberBin, .literalNumberOther,
   .literalString, .literalStringChar, .literalStringEscape, .operator, .punctuation, .comment,
   .commentSingle, .commentMultiline, .commentPreproc, .commentPreprocFile, .genericEmph,
   .genericError, .genericOutput, .genericPrompt, .genericStrong]

/-- The dotted path from the root of the hierarchy. -/
def fullName : Category → String
  | .text => "Text"
  | .error => "Error"
  | .keyword => "Keyword"
  | .keywordDeclaration => "Keyword.Declaration"
  | .keywordType => "Keyword.Type"
  | .keywordReserved => "Keyword.Reserved"
  | .keywordPseudo => "Keyword.Pseudo"
  | .name => "Name"
  | .nameAttribute => "Name.Attribute"
  | .nameBuiltin => "Name.Builtin"
  | .nameClass => "Name.Class"
  | .nameConstant => "Name.Constant"
  | .nameDecorator => "Name.Decorator"
  | .nameFunction => "Name.Function"
  | .nameNamespace => "Name.Namespace"
  | .nameOther => "Name.Other"
  | .nameProperty => "Name.Property"
  | .nameVariable => "Name.Variable"
  | .nameVariableGlobal => "Name.Variable.Global"
  | .nameVariableInstance => "Name.Variable.Instance"
  | .literal => "Literal"
  | .literalNumber => "Literal.Number"
  | .literalNumberFloat => "Literal.Number.Float"
  | .literalNumberHex => "Literal.Number.Hex"
  | .literalNumberInteger => "Literal.Number.Integer"
  | .literalNumberOct => "Literal.Number.Oct"
  | .literalNumberBin => "Literal.Number.Bin"
  | .literalNumberOther => "Literal.Number.Other"
  | .literalString => "Literal.String"
  | .literalStringChar => "Literal.String.Char"
  | .literalStringEscape => "Literal.String.Escape"
  | .operator => "Operator"
  | .punctuation => "Punctuation"
  | .comment => "Comment"
  | .commentSingle => "Comment.Single"
  | .commentMultiline => "Comment.Multiline"
  | .commentPreproc => "Comment.Preproc"
  | .commentPreprocFile => "Comment.PreprocFile"
  | .genericEmph => "Generic.Emph"
  | .genericError => "Generic.Error"
  | .genericOutput => "Generic.Output"
  | .genericPrompt => "Generic.Prompt"
  | .genericStrong => "Generic.Strong"

/-- The class name that style sheets use. -/
def styleClass : Category → String
  | .text => ""
  | .error => "err"
  | .keyword => "k"
  | .keywordDeclaration => "kd"
  | .keywordType => "kt"
  | .keywordReserved => "kr"
  | .keywordPseudo => "kp"
  | .name => "n"
  | .nameAttribute => "na"
  | .nameBuiltin => "nb"
  | .nameClass => "nc"
  | .nameConstant => "no"
  | .nameDecorator => "nd"
  | .nameFunction => "nf"
  | .nameNamespace => "nn"
  | .nameOther => "nx"
  | .nameProperty => "py"
  | .nameVariable => "nv"
  | .nameVariableGlobal => "vg"
  | .nameVariableInstance => "vi"
  | .literal => "l"
  | .literalNumber => "m"
  | .literalNumberFloat => "mf"
  | .literalNumberHex => "mh"
  | .literalNumberInteger => "mi"
  | .literalNumberOct => "mo"
  | .literalNumberBin => "mb"
  | .literalNumberOther => "mx"
  | .literalString => "s"
  | .literalStringChar => "sc"
  | .literalStringEscape => "se"
  | .operator => "o"
  | .punctuation => "p"
  | .comment => "c"
  | .commentSingle => "c1"
  | .commentMultiline => "cm"
  | .commentPreproc => "cp"
  | .commentPreprocFile => "cpf"
  | .genericEmph => "ge"
  | .genericError => "gr"
  | .genericOutput => "go"
  | .genericPrompt => "gp"
  | .genericStrong => "gs"

def parent : Category → Option Category
  | .keywordDeclaration | .keywordType | .keywordReserved | .keywordPseudo => some .keyword
  | .nameVariableGlobal | .nameVariableInstance => some .nameVariable
  | .nameAttribute | .nameBuiltin | .nameClass | .nameConstant | .nameDecorator
  | .nameFunction | .nameNamespace | .nameOther | .nameProperty | .nameVariable => some .name
  | .literalNumber | .literalString => some .literal
  | .literalNumberFloat | .literalNumberHex | .literalNumberInteger | .literalNumberOct
  | .literalNumberBin | .literalNumberOther => some .literalNumber
  | .literalStringChar | .literalStringEscape => some .literalString
  | .commentSingle | .commentMultiline | .commentPreproc | .commentPreprocFile => some .comment
  | _ => none

/-- A category and its ancestors, nearest first; the hierarchy has three levels. -/
def lineage (c : Category) : List Category :=
  c :: c.parent.elim [] fun p => p :: p.parent.elim [] fun g => [g]

/-- Whether `c` is `ancestor` or lies below it. -/
def isA (c ancestor : Category) : Bool := c.lineage.contains ancestor

/-- The number of ancestors. -/
def depth (c : Category) : Nat := c.lineage.length - 1

def ofName? (s : String) : Option Category := all.find? (·.fullName == s)

theorem ofName?_fullName (c : Category) : ofName? c.fullName = some c := by cases c <;> decide

end Category

end Highlighter
