import Highlighter.Language
import Highlighter.Log.Filter
import Highlighter.Text.Quoted
import Highlighter.Text.Utf8

/-! The lines that are logged of a scan and of a classification. -/

namespace Highlighter.Log

/-- A name and the text of a value. -/
abbrev Field := String × String

namespace Field

def text (name value : String) : Field := (name, Text.quoted value)

def number (name : String) (n : Nat) : Field := (name, toString n)

/-- Fields in a row. -/
def row (fs : List Field) : String := " ".intercalate (fs.map fun f => f.1 ++ "=" ++ f.2)

end Field

/-- The work that a line belongs to. -/
structure Span where
  name : String
  fields : List Field
  deriving DecidableEq, Repr

structure Line where
  level : Level
  span : Option Span
  source : String
  message : String
  fields : List Field
  deriving DecidableEq, Repr

namespace Line

/-- The text of a line. A span shows only where debugging lines are wanted. -/
def text (f : Filter) (l : Line) : String :=
  let span := match l.span with
    | some s =>
      if f.allows .debug l.source then s.name ++ "\x7b" ++ Field.row s.fields ++ "\x7d: " else ""
    | none => ""
  l.level.name ++ " " ++ span ++ l.source ++ ": " ++ l.message ++ " " ++ Field.row l.fields ++ "\n"

end Line

/-- The text of the lines that a filter allows. -/
def render (f : Filter) (lines : List Line) : String :=
  String.join ((lines.filter fun l => f.allows l.level l.source).map (Line.text f))

/-! ### Sources -/

def scannerSource : String := "tintlex::lexer"

def classifierSource : String := "tintlex::classifier"

def languageSource : String := "tintlex::language"

/-! ### Lines -/

/-- The first use of a rule set. -/
def ruleSetLine (rs : RuleSet) : Line :=
  ⟨.debug, none, scannerSource, "compiled rule set", [.text "lexer" rs.name,
    .number "states" rs.states.length, .number "rules" rs.ruleCount]⟩

def scanSpan (rs : RuleSet) (source : String) : Span :=
  ⟨"tokenize", [.text "lexer" rs.name, .number "len" (Text.utf8 source.toList).length]⟩

/-- What an event leaves in the log; a token leaves nothing. -/
def eventLine? (rs : RuleSet) (span : Span) : Event → Option Line
  | .token _ => none
  | .enter state =>
    some ⟨.trace, span, scannerSource, "push", [.text "state" (rs.stateName state)]⟩
  | .leave state =>
    some ⟨.trace, span, scannerSource, "pop", [.text "state" (rs.stateName state)]⟩
  | .stray state c =>
    some ⟨.trace, span, scannerSource, "no rule matched",
      [.text "state" (rs.stateName state), ("ch", Text.quotedChar c)]⟩

/-- A scan from its beginning to its end. -/
def scanLines (rs : RuleSet) (source : String) (s : Scanner) : List Line :=
  let span := scanSpan rs source
  s.events.filterMap (eventLine? rs span) ++
    [⟨.debug, some span, scannerSource, "scan finished",
      [.number "tokens" s.tokens.length, .number "depth" s.depth]⟩]

/-- The second pass over tokens, if the language has one. -/
def refineLines (l : Language) (tokens : List Token) : List Line :=
  if l.isClassified then
    let symbols := Symbols.collect tokens
    [⟨.debug, none, languageSource, "running classifier", [.text "lexer" l.tag]⟩,
      ⟨.debug, some ⟨"classify", [.number "tokens" tokens.length]⟩, classifierSource,
        "collected symbols", [.number "template_params" symbols.parameters.length,
          .number "local_types" symbols.types.length, .number "local_vars" symbols.vars.length]⟩]
  else []

end Highlighter.Log
