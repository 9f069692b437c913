import Highlighter.Classify.Kinds
import Highlighter.Rules.Console
import Highlighter.Rules.EngineCpp
import Highlighter.Rules.Output
import Highlighter.Rules.Terminal
import Highlighter.Scan.Scanner

/-! The languages, their names, and highlighting. -/

namespace Highlighter

inductive Language where
  | terminal | console | output | engineCpp
  deriving DecidableEq, Repr

namespace Language

def all : List Language := [terminal, console, output, engineCpp]

def tag : Language → String
  | terminal => "terminal"
  | console => "console"
  | output => "output"
  | engineCpp => "ue_cpp"

def aliases : Language → List String
  | terminal => ["bash_session", "sh_session"]
  | console => ["cmd", "powershell_session", "pwsh"]
  | output => ["build_output"]
  | engineCpp => ["uecpp", "cpp", "c++"]

def title : Language → String
  | terminal => "Terminal"
  | console => "Console"
  | output => "Output"
  | engineCpp => "UE C++"

def description : Language → String
  | terminal => "Linux / macOS shell terminal output (prompt, cmake, ls, tree, ...)"
  | console => "Windows Command Prompt / PowerShell output"
  | output => "Terminal-style output / compiler error / log block"
  | engineCpp => "Unreal Engine C++ with engine-aware token classification"

/-- A text without the white space around it and with small ASCII letters. -/
def normalized (s : String) : String := String.ofList ((Text.trim s.toList).map Char.toLower)

/-- Whether the normalized text is the tag or an alias. -/
def isNamed (l : Language) (s : String) : Bool := l.tag = s || l.aliases.contains s

/-- The language with a tag or an alias, whatever its case. -/
def ofTag? (s : String) : Option Language := all.find? (·.isNamed (normalized s))

def rules : Language → RuleSet
  | terminal => Rules.terminal
  | console => Rules.console
  | output => Rules.output
  | engineCpp => Rules.engineCpp

/-- Whether tokens are classified after the scan. -/
def isClassified (l : Language) : Bool := l = engineCpp

/-- The scanner at the end of the text. -/
def scan (l : Language) (source : String) : Scanner := l.rules.scan source

/-- What the second pass makes of scanned tokens. -/
def refine (l : Language) (tokens : List Token) : List Token :=
  if l.isClassified then classify tokens else tokens

def highlight (l : Language) (source : String) : List Token := l.refine (l.scan source).tokens

end Language

end Highlighter
