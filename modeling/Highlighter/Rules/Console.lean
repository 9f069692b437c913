import Highlighter.Rules.CommandLine

/-! Sessions of the Windows command prompt and of PowerShell. -/

namespace Highlighter.Rules.Console

open Pattern

/-- The state inside a line of the command prompt. -/
def promptLine : Nat := 1

/-- The state inside a line of PowerShell. -/
def shellLine : Nat := 2

/-- A date and a time, as in `02/27/2025  12:00 PM`. -/
def timestamp : Pattern :=
  let two := times 2 (one .digit)
  seqs [two, char '/', two, char '/', times 4 (one .digit), blanks, two, char ':', two, blanks,
    one (.of "AaPp"), one (.of "Mm")]

/-- Digits with commas between them. -/
def groupedDigits : Pattern := plus (one (.anyOf [.digit, .char ',']))

/-- A drive and a directory, up to the sign that ends the prompt. -/
def drivePrompt : Pattern :=
  seqs [one .letter, char ':', star (one (.except [.newline, .char '>'])), char '>']

/-- A line that holds one of the texts. -/
def lineWith (texts : List Pattern) : Pattern := line [toLineEnd, alts texts, toLineEnd]

def promptCommand : Pattern := whole (oneOfAnyCase Lexicon.Shell.promptCommands)

/-- A verb with any noun, or a command known by its full name. -/
def cmdlet : Pattern :=
  whole (alts [seqs [oneOf Lexicon.Shell.cmdletVerbs, char '-', plus (one .letter)],
    oneOf Lexicon.Shell.fixedCmdlets])

def root : List Rule :=
  [(Rule.lineHead [(seqs [lit "PS", blanks], .keyword), (drivePrompt, .genericPrompt),
     (optBlanks, .text)]).push shellLine,
   (Rule.lineHead [(drivePrompt, .genericPrompt), (optBlanks, .text)]).push promptLine,
   .line [(timestamp, .commentSingle), (blanks, .text), (lit "<DIR>", .keyword), (blanks, .text),
     (toLineEnd, .nameClass)],
   .line [(timestamp, .commentSingle), (blanks, .text), (groupedDigits, .literalNumber),
     (blanks, .text), (toLineEnd, .genericOutput)],
   .line [(blanks, .text),
     (seqs [one .digit, star (one (.anyOf [.digit, .char ',']))], .literalNumber), (blanks, .text),
     (oneOf ["File(s)", "Dir(s)"], .genericOutput), (toLineEnd, .genericOutput)],
   .token (lineWith [seqs [char '\'', toLineEnd, lit "' is not recognized"],
     lit "is not recognized as an internal or external command", lit "Access is denied",
     lit "The system cannot find"]) .genericError,
   .token (lineWith [lit "ERROR:", lit "error:"]) .genericError,
   .token (lineWith [lit "WARNING:", lit "warning:"]) .genericEmph] ++
  progressLines ++
  [(Rule.peek (seqs [lineStart, oneOf Lexicon.Shell.cmdletOpeners, char '-'])).push shellLine,
   (Rule.peek (seqs [lineStart, oneOfAnyCase Lexicon.Shell.promptOpeners, boundary])).push
     promptLine,
   ((Rule.peek (seqs [lineStart, compilerDriver])).followedBy driverEnd).push promptLine,
   .token hexNumber .literalNumber,
   .token (seqs [opt (char '-'), digits]) .literalNumber,
   .token dot .genericOutput,
   .token (char '\n') .text]

/-- Paths, file names and quoted texts. -/
def arguments : List Rule :=
  [.token relativePath .nameNamespace,
   .token barePath .nameNamespace,
   .token fileName .nameNamespace,
   .token doubleQuoted .literalString,
   .token singleQuoted .literalString]

/-- Paths with backslashes, from a drive or from a dot, without the signs that end
an argument. -/
def backslashPaths (ends : String) : List Rule :=
  let tail := star (one (.except [.space, .of ends]))
  [.token (seqs [one .letter, lit ":\\", tail]) .nameNamespace,
   .token (seqs [char '.', opt (char '.'), char '\\', tail]) .nameNamespace]

def promptRules : List Rule :=
  [(Rule.token (char '\n') .text).pop 1,
   (Rule.token compilerDriver .nameBuiltin).followedBy driverEnd,
   .token promptCommand .nameBuiltin,
   .token (seqs [char '/', plus (one (.anyOf [.letter, .asciiDigit, .of ":."]))]) .nameDecorator,
   .token shortOption .nameDecorator,
   .token longOption .nameDecorator] ++
  backslashPaths "\"'|&;,)" ++ arguments ++
  [.token (seqs [char '%', identifier, char '%']) .nameVariable,
   .token digits .literalNumber,
   .token (one (.of "&|")) .operator,
   .token blanks .text,
   .token (seqs [one (.anyOf [.letter, .of "_."]),
     star (one (.anyOf [.letter, .asciiDigit, .of "_-."]))]) .genericOutput,
   .token dot .genericOutput]

def shellRules : List Rule :=
  [(Rule.token (char '\n') .text).pop 1,
   .token cmdlet .nameBuiltin,
   (Rule.token compilerDriver .nameBuiltin).followedBy driverEnd,
   .token promptCommand .nameBuiltin,
   .token (seqs [char '-', one .letter, star (one (.anyOf [.letter, .asciiDigit]))])
     .nameDecorator,
   .token (seqs [lit "--", one .letter, star (one (.anyOf [.letter, .asciiDigit, .char '-']))])
     .nameDecorator] ++
  backslashPaths "\"'|;,)" ++ arguments ++
  [.token (seqs [char '$', alts [seqs [lit "env:", identifier], identifier]]) .nameVariable,
   .token digits .literalNumber,
   .token (one (.of "|;")) .operator,
   .token blanks .text,
   .token (seqs [one .identHead, star (one (.anyOf [.letter, .asciiDigit, .of "_-."]))])
     .genericOutput,
   .token dot .genericOutput]

end Console

def console : RuleSet :=
  ⟨"console", [⟨"root", Console.root⟩, ⟨"cmd_command", Console.promptRules⟩,
    ⟨"ps_command", Console.shellRules⟩]⟩

end Highlighter.Rules
