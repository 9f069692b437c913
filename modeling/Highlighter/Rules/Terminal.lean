import Highlighter.Rules.CommandLine

/-! Sessions of Unix shells: prompts, commands, and the output of `cmake`, `make`,
`ls` and `tree`. -/

namespace Highlighter.Rules.Terminal

open Pattern

/-- The state inside a command line. -/
def command : Nat := 1

/-- A line that names a problem by one of the words, a colon and blanks. -/
def problemLine (words : List String) : Pattern :=
  line [toLineEnd, boundary, oneOf words, char ':', blanks, toLineEnd]

/-- A line of a long listing, as in `drwxr-xr-x 2 user group 4096 Feb 27 12:00 name`. -/
def listing : Rule :=
  let word := plus (one .nonSpace)
  .line [(times 10 (one (.of "d-lrwxstST")), .nameDecorator),
    (seqs [blanks, digits], .literalNumber), (blanks, .text),
    (word, .nameVariable), (blanks, .text), (word, .nameVariable), (blanks, .text),
    (plus (one (.anyOf [.digit, .char ','])), .literalNumber), (blanks, .text),
    (seqs [times 3 (one .word), blanks, digits, blanks, plus (one (.anyOf [.digit, .char ':']))],
      .commentSingle),
    (blanks, .text), (plus dot, .genericOutput)]

/-- A line of a drawn tree. -/
def branch : Rule :=
  .line [(seqs [one (.of "│├└─"), star (one (.of "│├└─ \t"))], .punctuation),
    (seqs [one .nonSpace, toLineEnd], .genericOutput)]

/-- A prompt ends in a sign and blanks. -/
def prompt (sign : Char) : Rule :=
  .lineHead [(seqs [star (one (.except [.newline, .char sign])), char sign, blanks],
    .genericPrompt)]

def root : List Rule :=
  progressLines ++
  [.token (line [lit "CMake Error", toLineEnd]) .genericError,
   .token (line [lit "CMake Warning", toLineEnd]) .genericEmph,
   .token (line [lit "make", opt (seqs [char '[', digits, char ']']), char ':', blanks, lit "***",
     toLineEnd]) .genericError,
   .token (problemLine ["error", "Error", "ERROR"]) .genericError,
   .token (problemLine ["warning", "Warning", "WARNING"]) .genericEmph,
   listing,
   branch,
   (prompt '$').push command,
   (prompt '#').push command,
   (Rule.peek (seqs [lineStart, wholeWord Lexicon.Shell.shellOpeners])).push command,
   ((Rule.peek (seqs [lineStart, compilerDriver])).followedBy driverEnd).push command,
   .token hexNumber .literalNumber,
   .token (seqs [opt (char '-'), digits, opt (seqs [char '.', digits])]) .literalNumber,
   .token dot .genericOutput,
   .token (char '\n') .text]

/-- A compiler driver comes before the word list, which would stop inside it. -/
def commandLine : List Rule :=
  [(Rule.token (char '\n') .text).pop 1,
   (Rule.token compilerDriver .nameBuiltin).followedBy driverEnd,
   .token (wholeWord Lexicon.Shell.shellCommands) .nameBuiltin,
   .token longOption .nameDecorator,
   .token shortOption .nameDecorator,
   .token (seqs [plus (seqs [char '/', plus (one (.except [.space, .of "/;|&>"]))]),
     opt (char '/')]) .nameNamespace,
   .token relativePath .nameNamespace,
   .token barePath .nameNamespace,
   .token fileName .nameNamespace,
   .token doubleQuoted .literalString,
   .token singleQuoted .literalString,
   .token (seqs [lit "$\x7b", identifier, char '\x7d']) .nameVariable,
   .token (seqs [char '$', identifier]) .nameVariable,
   .token (alts [lit "||", lit "&&", seqs [char '>', opt (char '>')], lit "<<", one (.of "|;&")])
     .operator,
   .token hexNumber .literalNumber,
   .token digits .literalNumber,
   .token blanks .text,
   .token (seqs [one .identHead, star (one (.anyOf [.letter, .asciiDigit, .of "_-."]))])
     .genericOutput,
   .token dot .genericOutput]

end Terminal

def terminal : RuleSet := ⟨"terminal", [⟨"root", Terminal.root⟩, ⟨"command", Terminal.commandLine⟩]⟩

end Highlighter.Rules
