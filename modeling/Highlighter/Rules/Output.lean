import Highlighter.Lexicon.Diagnostics
import Highlighter.Rules.Parts

/-! Compiler diagnostics, log lines of the engine, and the code that compilers
quote. -/

namespace Highlighter.Rules.Output

open Pattern

/-- The state after the head of a diagnostic. -/
def message : Nat := 1

/-- The state inside a quoted type. -/
def quotedType : Nat := 2

/-- The state inside a line of quoted code. -/
def excerpt : Nat := 3

/-- The state between double brackets. -/
def annotation : Nat := 4

/-- Type names of the engine, such as `FString`, `TArray` and `UObject`. -/
def engineType : Pattern :=
  seqs [boundary, one (.of "FUATEISN"), one .upper, plus (one .identTail)]

/-- Names in the namespace of the standard library. -/
def libraryName : Pattern :=
  seqs [boundary, lit "std::", one .identHead,
    star (one (.anyOf [.letter, .asciiDigit, .of "_:<>"]))]

def typeNames : List Rule :=
  [.token engineType .nameClass,
   .token libraryName .nameClass,
   .token (wholeWord Lexicon.Diagnostics.primitiveTypes) .keywordType]

/-- The signs of references and pointers. -/
def declarators : Rule := .token (alts [seqs [char '&', opt (char '&')], char '*']) .operator

def numbers : List Rule :=
  [.token hexNumber .literalNumber,
   .token (seqs [opt (char '-'), digits, opt (seqs [char '.', digits]),
     opt (seqs [one (.of "eE"), opt (one (.of "+-")), digits])]) .literalNumber]

def valueCategory : Rule := .token (wholeWord Lexicon.Diagnostics.valueCategories) .keyword

def qualifier : Rule := .token (wholeWord Lexicon.Diagnostics.qualifiers) .keywordType

/-- The word at the start of a diagnostic and its colon. -/
def head (word : Pattern) (kind : Category) : Rule :=
  (Rule.lineHead [(word, kind), (char ':', .punctuation)]).push message

/-- The name of a log category. -/
def logName : Pattern := seqs [lit "Log", plus (one .word)]

/-- A log line with its level. -/
def logLine (levels : List String) (kind : Category) : Rule :=
  .line [(logName, .nameBuiltin), (seqs [char ':', blanks], .punctuation), (oneOf levels, kind),
    (seqs [char ':', toLineEnd], .genericOutput)]

/-- A line that reports success, in any case. -/
def success : Pattern :=
  line [toLineEnd, boundary,
    alts [anyCase "SUCCESS", seqs [anyCase "PASS", opt (anyCase "ED")], anyCase "DONE",
      anyCase "OK", seqs [anyCase "Succeede", opt (anyCase "d")]],
    boundary, toLineEnd]

def root : List Rule :=
  let rule := one (.of "-=~")
  [(Rule.token (lit "[[") .punctuation).push annotation,
   .token (line [alts [char '#', lit "//"], toLineEnd]) .commentSingle,
   .token (line [rep rule 2 none true, star (one (.except [.newline])), rep rule 2 none true])
     .genericStrong,
   .token (line [rep rule 4 none true]) .genericStrong,
   head (seqs [opt (lit "fatal "), lit "error"]) .genericError,
   head (lit "warning") .genericEmph,
   head (lit "note") .commentSingle,
   .line [(seqs [plus (one (.anyOf [.word, .of "/\\."])), char '.', plus (one .word)],
       .genericPrompt),
     (seqs [char ':', digits, opt (seqs [char ':', digits]), char ':'], .literalNumber),
     (toLineEnd, .genericOutput)],
   .token (line [optBlanks, one (.of "|^~"), star (one (.of " \t|^~"))]) .genericStrong,
   logLine ["Warning"] .genericEmph,
   logLine ["Error", "Fatal"] .genericError,
   .line [(logName, .nameBuiltin), (char ':', .punctuation), (toLineEnd, .genericOutput)],
   .token success .genericStrong,
   ((Rule.token (seqs [lineStart, blanks]) .text).followedBy
     (one (.anyOf [.letter, .asciiDigit, .of "_\"'("]))).push excerpt,
   valueCategory,
   qualifier] ++
  typeNames ++ [declarators] ++ numbers ++
  [.token dot .genericOutput,
   .token (char '\n') .text]

def messageRules : List Rule :=
  [(Rule.token (char '\n') .text).pop 1,
   (Rule.token (char '\'') .punctuation).push quotedType,
   valueCategory] ++
  typeNames ++ [declarators] ++ numbers ++
  [.token identifier .literalString,
   .token dot .literalString]

/-- A quote that is not closed ends with its line, and so does the message around it. -/
def quotedTypeRules : List Rule :=
  [(Rule.token (char '\'') .punctuation).pop 1,
   (Rule.token (char '\n') .text).pop 2,
   qualifier] ++
  typeNames ++
  [declarators,
   .token dot .literalString]

def excerptRules : List Rule :=
  [(Rule.token (char '\n') .text).pop 1,
   qualifier,
   .token (wholeWord Lexicon.Diagnostics.excerptKeywords) .keyword,
   (Rule.token identifier .nameFunction).followedBy (seqs [optBlanks, char '('])] ++
  typeNames ++
  [.token doubleQuoted .literalString,
   .token singleQuoted .literalStringChar] ++
  numbers ++
  [.token (alts [lit "->", seqs [char '&', opt (char '&')], seqs [char '|', opt (char '|')],
     plus (one (.of "+-*/=!<>%^&~"))]) .operator,
   .token (one (.of "()[]\x7b\x7d;,.")) .punctuation,
   .token identifier .nameVariableInstance,
   .token blanks .text,
   .token dot .genericOutput]

/-- Template parameters are capitalized words. -/
def annotationRules : List Rule :=
  [(Rule.token (lit "]]") .punctuation).pop 1,
   (Rule.token (char '\n') .text).pop 1,
   .token (wholeWord ["const", "volatile"]) .keywordType,
   .token engineType .nameClass,
   .token (whole (seqs [one .upper, star (one .identTail)])) .nameClass,
   declarators,
   .token dot .genericOutput]

end Output

def output : RuleSet :=
  ⟨"output", [⟨"root", Output.root⟩, ⟨"message", Output.messageRules⟩,
    ⟨"quoted_type", Output.quotedTypeRules⟩, ⟨"code_snippet", Output.excerptRules⟩,
    ⟨"annotation", Output.annotationRules⟩]⟩

end Highlighter.Rules
