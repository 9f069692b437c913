import Highlighter.Config.Aliases
import Highlighter.Failure

/-! The configuration: the language and the form of output that hold when the user
names none, and further names of languages. -/

namespace Highlighter

inductive OutputFormat where
  | plain | json
  deriving DecidableEq, Repr

namespace OutputFormat

def all : List OutputFormat := [plain, json]

def name : OutputFormat → String
  | plain => "plain"
  | json => "json"

def ofName? (s : String) : Option OutputFormat := all.find? (·.name = s)

end OutputFormat

structure Config where
  /-- A name of the language, not always a valid one. -/
  defaultLanguage : String
  format : OutputFormat
  aliases : Aliases
  deriving DecidableEq, Repr

namespace Config

def default : Config := ⟨Language.engineCpp.tag, .plain, .empty⟩

/-- The name that an alias stands for. An alias in small letters stands for its
name in any letters; every other name stands for itself. -/
def target (c : Config) (name : String) : String :=
  ((c.aliases.get? name).or (c.aliases.get? (String.ofList (name.toList.map Char.toLower)))).getD name

/-- The language of a name, or of the default name. -/
def language (c : Config) (name : Option String) : Except Failure Language :=
  let name := name.getD c.defaultLanguage
  match Language.ofTag? (c.target name) with
  | some l => .ok l
  | none => .error (.unknownLanguage name)

end Config

end Highlighter
