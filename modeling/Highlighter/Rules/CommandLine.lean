import Highlighter.Lexicon.Shell
import Highlighter.Rules.Parts

/-! Parts of command lines that shells have in common, and the progress lines of
build tools. -/

namespace Highlighter.Rules

open Pattern

/-- What may follow a compiler driver. -/
def driverEnd : Pattern := alts [one .space, char '-', lineEnd]

def compilerDriver : Pattern := oneOf Lexicon.Shell.compilerDrivers

/-- One character of a path: neither white space nor a sign that ends a command. -/
def pathChar : Pattern := one (.except [.space, .of ";|&>"])

/-- A path that begins with `./`, `../` or `~/`. -/
def relativePath : Pattern :=
  seqs [alts [seqs [char '.', opt (char '.')], char '~'], char '/', star pathChar]

/-- A path that begins with a name. -/
def barePath : Pattern :=
  seqs [one .identHead, star (one (.anyOf [.letter, .asciiDigit, .of "_.+-"])),
    plus (seqs [char '/', plus pathChar])]

/-- A name with an extension. -/
def fileName : Pattern :=
  seqs [one .identHead, star (one (.anyOf [.letter, .asciiDigit, .of "_+-"])), char '.',
    one .letter, star (one (.anyOf [.letter, .asciiDigit]))]

/-- A value after an equals sign stops before a quote, which begins a string. -/
def optionValue : Pattern :=
  opt (seqs [char '=', star (one (.except [.of "\"'", .space]))])

def longOption : Pattern :=
  seqs [lit "--", one .letter, star (one (.anyOf [.letter, .asciiDigit, .char '-'])), optionValue]

def shortOption : Pattern :=
  seqs [char '-', one .letter, star (one (.anyOf [.letter, .asciiDigit, .char '_'])), optionValue]

/-- A share of the work in brackets, as in `[ 42%]`. -/
def percentage : Pattern := seqs [char '[', optBlanks, digits, lit "%]"]

/-- Lines such as `[ 42%] Building main.o` and `-- Configuring done`. -/
def progressLines : List Rule :=
  [.line [(percentage, .genericStrong), (blanks, .text),
     (oneOf Lexicon.Shell.buildVerbs, .keyword), (toLineEnd, .genericOutput)],
   .line [(percentage, .genericStrong), (toLineEnd, .genericOutput)],
   .line [(lit "--", .commentSingle), (blanks, .text), (toLineEnd, .genericOutput)]]

end Highlighter.Rules
