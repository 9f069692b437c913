import Highlighter.Lexicon.Cpp
import Highlighter.Rules.Parts

/-! The first pass over C++: a scan that knows no context. What the engine makes of
a name is left to classification. -/

namespace Highlighter.Rules.EngineCpp

open Pattern

/-- The state inside a string literal. -/
def string : Nat := 1

/-- The state inside a preprocessor directive. -/
def directive : Nat := 2

/-- The state between `class` and the name that it declares. -/
def className : Nat := 3

/-- The state inside a template parameter list. -/
def template : Nat := 4

/-- The state inside a block that the preprocessor skips. -/
def skipped : Nat := 5

/-- A comment that is not closed runs to the end of the text. -/
def blockComment : Pattern :=
  seqs [lit "/*", lazyStar (one .all), alts [lit "*/", edge .textEnd]]

/-- A backslash carries a line comment into the next line. -/
def lineComment : Pattern :=
  seqs [lit "//", star (alts [lit "\\\n", one (.except [.newline])])]

def whitespace : List Rule :=
  [.token blanks .text,
   .token (char '\n') .text,
   .token (lit "\\\n") .text,
   .token lineComment .commentSingle,
   .token blockComment .commentMultiline]

/-! ### Literals -/

/-- A digit or a separator between digits. -/
def digitOrMark : CharSet := .anyOf [.digit, .char '\'']

/-- An exponent and its digits. -/
def exponent : Pattern := seqs [one (.of "eE"), opt (one (.of "+-")), digits]

/-- A number with the suffix of a literal operator, as in `10_km`. -/
def suffixed : Pattern :=
  seqs [alts [seqs [digits, opt (seqs [char '.', star (one .digit)])], seqs [char '.', digits]],
    opt exponent, char '_', identifier]

/-- A number with a point, or without a point and with an exponent. -/
def floatingPoint : Pattern :=
  let marked := star (one digitOrMark)
  let suffix := opt (one (.of "flFL"))
  alts [
    seqs [alts [seqs [one .digit, marked, char '.', marked], seqs [char '.', one .digit, marked]],
      opt exponent, suffix],
    seqs [one .digit, marked, exponent, suffix]]

/-- The suffix of an integer. -/
def integerEnd : Pattern := star (one (.of "luLU"))

def hexInteger : Pattern :=
  seqs [char '0', one (.of "xX"), plus (one (.anyOf [.hexDigit, .char '\''])), integerEnd]

def binaryInteger : Pattern :=
  seqs [char '0', one (.of "bB"), plus (one (.of "01'")), integerEnd]

def octalInteger : Pattern :=
  seqs [char '0', plus (one (.anyOf [.range '0' '7', .char '\''])), integerEnd]

def decimalInteger : Pattern := seqs [one .digit, star (one digitOrMark), integerEnd]

/-- The encoding prefix of a string or a character. -/
def encoding : Pattern := opt (oneOf ["u8", "u", "U", "L"])

/-- Delimiters are not compared: the first one after a parenthesis closes. -/
def rawString : Pattern :=
  seqs [encoding, lit "R\"", rep (one (.except [.of "(\\", .space])) 0 (some 16) true, char '(',
    lazyStar (one .all), char ')', rep (one (.except [.of "\"\\", .space])) 0 (some 16) true,
    char '"']

def character : Pattern :=
  seqs [encoding, char '\'',
    alts [
      seqs [char '\\', alts [seqs [one (.of "xX"), plus (one .hexDigit)],
        rep (one (.range '0' '7')) 1 (some 3) true, dot]],
      one (.except [.of "\\'\n"])],
    char '\'']

/-! ### Statements -/

def longOperators : Pattern :=
  alts [lit "::", lit "<=>", seqs [lit "->", opt (char '*')], lit ".*", lit "&&", lit "||",
    lit "<<=", lit ">>=", lit "<<", lit ">>", lit "++", lit "--",
    seqs [one (.of "-+*/%&|^!=<>"), char '=']]

/-- Directives, white space and comments come first: blanks before a `#` belong to
the line of the directive. -/
def statements : List Rule :=
  [(Rule.fields [lineStart]
     [(optBlanks, .text), (seqs [char '#', optBlanks, lit "if", blanks, char '0'], .commentPreproc)]
     [boundary]).push skipped,
   (Rule.lineHead [(optBlanks, .text), (char '#', .commentPreproc)]).push directive] ++
  whitespace ++
  [.token (wholeWord ["__offload", "__blockingoffload", "__outer"]) .keywordPseudo,
   (Rule.token (wholeWord ["class", "struct"]) .keyword).push className,
   (Rule.token (wholeWord ["template"]) .keyword).push template,
   .token suffixed .literalNumberOther,
   .token floatingPoint .literalNumberFloat,
   .token hexInteger .literalNumberHex,
   .token binaryInteger .literalNumberBin,
   .token octalInteger .literalNumberOct,
   .token decimalInteger .literalNumberInteger,
   .token (wholeWord ["nullptr", "true", "false", "NULL"]) .nameBuiltin,
   .token rawString .literalString,
   .token longOperators .operator,
   .token (one (.of "-+*/%&|^~!=<>?:")) .operator,
   .token (lit "...") .punctuation,
   .token (one (.of "\x7b\x7d()[],.;")) .punctuation,
   (Rule.token (seqs [encoding, char '"']) .literalString).push string,
   .token character .literalStringChar,
   .token (wholeWord Lexicon.Cpp.scannedKeywords) .keyword,
   .token (wholeWord Lexicon.Cpp.scannedTypes) .keywordType,
   .token (wholeWord Lexicon.Cpp.scannedReserved) .keywordReserved,
   .token identifier .name]

/-! ### Other states -/

/-- An escape sequence that the language knows. -/
def escapeSequence : Pattern :=
  seqs [char '\\', alts [one (.of "\\abfnrtv\"'?"),
    seqs [char 'x', rep (one .hexDigit) 2 (some 4) true],
    seqs [char 'u', times 4 (one .hexDigit)],
    seqs [char 'U', times 8 (one .hexDigit)],
    rep (one (.range '0' '7')) 1 (some 3) true]]

/-- A string that is not closed ends with its line. -/
def stringRules : List Rule :=
  [(Rule.token (char '"') .literalString).pop 1,
   .token escapeSequence .literalStringEscape,
   .token (plus (one (.except [.of "\\\"\n"]))) .literalString,
   .token (lit "\\\n") .literalString,
   .token (char '\\') .literalString,
   (Rule.token (char '\n') .text).pop 1]

/-- An angle-bracketed or quoted file name. -/
def includeTarget : Pattern :=
  alts [doubleQuoted, seqs [char '<', star (one (.except [.of ">\n"])), char '>']]

def directiveRules : List Rule :=
  [.fields [] [(optBlanks, .text), (lit "include", .commentPreproc), (optBlanks, .text),
     (includeTarget, .commentPreprocFile), (star (one (.except [.newline])), .commentSingle)] [],
   .token blockComment .commentMultiline,
   .token (seqs [lit "//", star (one (.except [.newline]))]) .commentSingle,
   .token (lit "\\\n") .commentPreproc,
   .token (plus (one (.except [.of "/\n\\"]))) .commentPreproc,
   .token (one (.of "/\\")) .commentPreproc,
   (Rule.token (char '\n') .text).pop 1]

/-- The last rule leaves the state where no name follows, as in `struct \x7b`. -/
def classNameRules : List Rule :=
  [.token (seqs [boundary, one .upper, star (one (.anyOf [.upper, .asciiDigit, .char '_'])),
     lit "_API", boundary]) .name,
   ((Rule.token blanks .text).followedBy (char '>')).pop 1,
   (Rule.token identifier .nameClass).pop 1,
   .token (plus (one (.of " \t\n"))) .text,
   .token lineComment .commentSingle,
   .token blockComment .commentMultiline,
   (Rule.peek empty).pop 1]

def templateRules : List Rule :=
  [(Rule.token (one (.of ">;")) .punctuation).pop 1,
   (Rule.token (wholeWord ["typename"]) .keyword).push className] ++
  statements

/-- The start of a line that holds a directive. -/
def directiveHead (p : Pattern) : List Pattern := [optBlanks, char '#', optBlanks, p]

/-- Conditions nest, and every other branch is live again. -/
def skippedRules : List Rule :=
  [(Rule.token (line (directiveHead (lit "if") ++ [toLineEnd])) .commentPreproc).push skipped,
   (Rule.token (line (directiveHead (lit "endif") ++ [toLineEnd])) .commentPreproc).pop 1,
   (Rule.token (line (directiveHead (seqs [lit "el", oneOf ["se", "if"]]) ++
     [boundary, toLineEnd])) .commentPreproc).pop 1,
   .token (plus dot) .comment,
   .token (char '\n') .text]

end EngineCpp

def engineCpp : RuleSet :=
  ⟨"ue_cpp", [⟨"statements", EngineCpp.statements⟩, ⟨"string", EngineCpp.stringRules⟩,
    ⟨"macro", EngineCpp.directiveRules⟩, ⟨"classname", EngineCpp.classNameRules⟩,
    ⟨"template", EngineCpp.templateRules⟩, ⟨"if_0", EngineCpp.skippedRules⟩]⟩

end Highlighter.Rules
