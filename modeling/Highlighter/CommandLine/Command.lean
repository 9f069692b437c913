import Highlighter.Config.Basic
import Highlighter.Files.Path
import Highlighter.Text.Pieces

/-! Commands, and how the arguments of a command line spell them. -/

namespace Highlighter

inductive Command where
  | version
  /-- Lists the tokens of a file, or of standard input. -/
  | tokens (language : Option String) (raw : Bool) (format : Option OutputFormat)
      (file : Option Path)
  /-- Scans files and compares the tokens with them. -/
  | check (language : Option String) (files : List Path)
  | languages
  | categories
  | showConfig
  | initConfig
  | configPath
  deriving DecidableEq, Repr

namespace Command

/-- Options that take a value. -/
inductive Valued where
  | language | format
  deriving DecidableEq, Repr

/-- What an argument says, together with its value. -/
inductive Argument where
  | valued (o : Valued) (value : String)
  | raw
  | operand (text : String)
  deriving DecidableEq, Repr

/-- The forms of an argument. -/
inductive Form where
  | complete (a : Argument)
  /-- The next argument is the value. -/
  | needsValue (o : Valued)
  /-- All arguments behind it are operands. -/
  | separator
  | invalid
  deriving DecidableEq, Repr

/-- A text up to an equals sign, and the text behind it. -/
def splitEquals (cs : List Char) : List Char × Option (List Char) :=
  (cs.takeWhile (· != '='), (cs.dropWhile (· != '=')).tail?)

/-- An option, by itself or with a value. -/
def valuedForm (o : Valued) (value : Option (List Char)) : Form :=
  match value with
  | some v => .complete (.valued o (String.ofList v))
  | none => .needsValue o

/-- An option with a long name. -/
def longForm (cs : List Char) : Form :=
  let (name, value) := splitEquals cs
  if name = "lexer".toList then valuedForm .language value
  else if name = "format".toList then valuedForm .format value
  else if name = "raw".toList && value.isNone then .complete .raw
  else .invalid

/-- The value behind a letter, with or without an equals sign. -/
def attached : List Char → Option (List Char)
  | [] => none
  | '=' :: cs => some cs
  | cs => some cs

def form (argument : String) : Form :=
  match argument.toList with
  | ['-', '-'] => .separator
  | '-' :: '-' :: cs => longForm cs
  | '-' :: 'l' :: cs => valuedForm .language (attached cs)
  | '-' :: 'f' :: cs => valuedForm .format (attached cs)
  | '-' :: _ :: _ => .invalid
  | _ => .complete (.operand argument)

/-- Whether an argument can be the value of the option before it. -/
def isValue (argument : String) : Bool :=
  match argument.toList with
  | '-' :: _ :: _ => false
  | _ => true

/-- The arguments behind a command. -/
def readArguments : List String → Option (List Argument)
  | [] => some []
  | a :: rest =>
    match form a with
    | .complete x => (readArguments rest).map (x :: ·)
    | .needsValue o =>
      match rest with
      | v :: rest => if isValue v then (readArguments rest).map (.valued o v :: ·) else none
      | [] => none
    | .separator => some (rest.map .operand)
    | .invalid => none

/-! ### Meanings -/

/-- The single value of an option that may be missing but not be repeated. -/
def single? {α : Type} : List α → Option (Option α)
  | [] => some none
  | [a] => some (some a)
  | _ => none

def valuesOf (o : Valued) (arguments : List Argument) : List String :=
  arguments.filterMap fun
    | .valued p v => if p = o then some v else none
    | _ => none

/-- The operands as paths. A path has some text. -/
def pathsOf (arguments : List Argument) : Option (List Path) :=
  (arguments.filterMap fun
    | .operand s => some s
    | _ => none).mapM fun s => if s.isEmpty then none else some ⟨s⟩

def ofTokens (arguments : List Argument) : Option Command := do
  let language ← single? (valuesOf .language arguments)
  let format ← single? (valuesOf .format arguments)
  let raw ← single? (arguments.filter (· = .raw))
  let file ← single? (← pathsOf arguments)
  match format with
  | none => return .tokens language raw.isSome none file
  | some name => return .tokens language raw.isSome (some (← OutputFormat.ofName? name)) file

def ofCheck (arguments : List Argument) : Option Command := do
  let language ← single? (valuesOf .language arguments)
  let files ← pathsOf arguments
  if files.isEmpty || arguments.contains .raw || !(valuesOf .format arguments).isEmpty then none
  else return .check language files

/-- A command without arguments of its own. -/
def plain (c : Command) (arguments : List Argument) : Option Command :=
  if arguments.isEmpty then some c else none

def ofConfig : List String → Option Command
  | "show" :: rest => (readArguments rest).bind (plain .showConfig)
  | "init" :: rest => (readArguments rest).bind (plain .initConfig)
  | "path" :: rest => (readArguments rest).bind (plain .configPath)
  | _ => none

/-- Whether an argument asks for the version. -/
def isVersion (argument : String) : Bool :=
  match argument.toList with
  | '-' :: 'V' :: _ => true
  | cs => cs = "--version".toList

/-- The command that arguments spell, if they spell one. -/
def ofArguments : List String → Option Command
  | [] => none
  | "tokens" :: rest => (readArguments rest).bind ofTokens
  | "check" :: rest => (readArguments rest).bind ofCheck
  | "lexers" :: rest => (readArguments rest).bind (plain .languages)
  | "categories" :: rest => (readArguments rest).bind (plain .categories)
  | "config" :: rest => ofConfig rest
  | a :: _ => if isVersion a then some .version else none

end Command

end Highlighter
