import Highlighter.CommandLine.Command
import Highlighter.CommandLine.Listing
import Highlighter.Config.Text
import Highlighter.Divergence
import Highlighter.Files.Tree
import Highlighter.Log.Line

/-! What commands do: what they print, how they end, and what they do to the files. -/

namespace Highlighter

/-- The variables that a command sees. -/
structure Environment where
  /-- The path of the configuration file. -/
  config : Option String
  home : Option String
  /-- Which log lines are wanted. -/
  log : Option String
  deriving DecidableEq, Repr

namespace Environment

/-- The configuration file is in a directory of its own in the home directory, unless
another path is given. -/
def configPath (e : Environment) : Path :=
  match e.config with
  | some p => ⟨p⟩
  | none => ((Path.mk (e.home.getD Path.same)).join ".tintlex").join "config.json"

def filter (e : Environment) : Log.Filter := e.log.elim [] Log.Filter.ofText

end Environment

/-- All that a command starts from. -/
structure Session where
  environment : Environment
  input : ByteArray
  files : FileTree

/-- How a command ends. -/
structure Outcome where
  code : Nat
  out : String
  err : String
  files : FileTree

namespace Session

/-! ### Ways to end -/

def succeed (s : Session) (out err : String) : Outcome := ⟨0, out, err, s.files⟩

def fail (s : Session) (f : Failure) : Outcome := ⟨1, "", "Error: " ++ f.details ++ "\n", s.files⟩

/-! ### Reading -/

/-- The configuration of the configuration file, or the default one without a file. -/
def config (s : Session) : Except Failure Config :=
  let path := s.environment.configPath
  if s.files.contains path then
    match s.files.read path with
    | .ok text => (Config.ofText text).mapError fun m => .config (path.text ++ ": " ++ m)
    | .error a => .error (.access a)
  else .ok .default

def language (s : Session) (name : Option String) : Except Failure Language := do
  (← s.config).language name

/-- The text of a file. -/
def source (s : Session) (file : Path) : Except Failure String :=
  if s.files.contains file then (s.files.read file).mapError .access
  else .error (.fileNotFound file.text)

/-- The text of a file, or of the standard input. -/
def sourceOrInput (s : Session) (file : Option Path) : Except Failure String :=
  match file with
  | some p => s.source p
  | none => (FileTree.decode s.input).mapError .access

/-! ### Tokens -/

/-- The tokens of a text, scanned only or also refined, and what is logged on the way. -/
def highlighted (l : Language) (raw : Bool) (source : String) : List Token × List Log.Line :=
  let scanned := l.scan source
  let lines := Log.scanLines l.rules source scanned
  if raw then (scanned.tokens, lines)
  else (l.refine scanned.tokens, lines ++ Log.refineLines l scanned.tokens)

def tokens (s : Session) (language : Option String) (raw : Bool) (format : Option OutputFormat)
    (file : Option Path) : Except Failure Outcome := do
  let config ← s.config
  let l ← config.language language
  let source ← s.sourceOrInput file
  let (ts, lines) := highlighted l raw source
  return s.succeed (Token.listing (format.getD config.format) ts)
    (Log.render s.environment.filter (Log.ruleSetLine l.rules :: lines))

/-! ### Checks -/

/-- The number of tokens of a file, or why it fails; and what is logged of it. -/
structure Verdict where
  result : Except Failure Nat
  lines : List Log.Line

namespace Verdict

/-- The verdict on a file. -/
def ofFile (s : Session) (l : Language) (file : Path) : Verdict :=
  match s.source file with
  | .error f => ⟨.error f, []⟩
  | .ok source =>
    let (ts, lines) := highlighted l false source
    match firstDivergence source ts with
    | none => ⟨.ok ts.length, lines⟩
    | some offset => ⟨.error (.divergence file.text l offset), lines⟩

def isFailure (v : Verdict) : Bool := !v.result.toBool

/-- The line of a file. -/
def report (file : Path) (v : Verdict) : String :=
  match v.result with
  | .ok n => s!"ok    {file.text} ({n} tokens)\n"
  | .error _ => s!"FAIL  {file.text}\n"

def message (v : Verdict) : String :=
  match v.result with
  | .ok _ => ""
  | .error f => f.message

/-- The log lines and messages of files in their order. The rule set is first used
with the first file that can be read. -/
def messages (f : Log.Filter) (rs : RuleSet) : Bool → List Verdict → String
  | _, [] => ""
  | used, v :: vs =>
    let lines := if used || v.lines.isEmpty then v.lines else Log.ruleSetLine rs :: v.lines
    Log.render f lines ++ v.message ++ messages f rs (used || !v.lines.isEmpty) vs

end Verdict

def check (s : Session) (language : Option String) (files : List Path) : Except Failure Outcome := do
  let l ← s.language language
  let verdicts := files.map (Verdict.ofFile s l)
  let failures := verdicts.countP Verdict.isFailure
  let out := String.join (List.zipWith Verdict.report files verdicts)
  let err := Verdict.messages s.environment.filter l.rules false verdicts
  if failures = 0 then return s.succeed out err
  else return ⟨1, out, err ++ s!"{failures} of {files.length} files failed\n", s.files⟩

/-! ### The configuration file -/

def showConfig (s : Session) : Except Failure Outcome := do
  return s.succeed ((← s.config).text ++ "\n") ""

/-- Writes a configuration, in a directory that is made if it is missing. -/
def save (s : Session) (c : Config) : FileTree × Option FileRefusal :=
  let path := s.environment.configPath
  let (t, refusal) := match path.parent? with
    | some names => s.files.makeDirectories path.isAbsolute names.reverse
    | none => (s.files, none)
  match refusal with
  | some r => (t, some r)
  | none =>
    match t.write path c.text.toUTF8 with
    | .ok t => (t, none)
    | .error r => (t, some r)

/-- Writes the default configuration where there is none yet. -/
def initConfig (s : Session) : Outcome :=
  let path := s.environment.configPath
  if s.files.contains path then
    s.succeed s!"Config file already exists at: {path.text}\nRemove it to reinitialize.\n" ""
  else
    let (files, refusal) := s.save .default
    let s := { s with files }
    match refusal with
    | none => s.succeed s!"Initialized new config file at: {path.text}\n" ""
    | some r => s.fail (.access (.refused r))

/-! ### Commands -/

/-- A command that fails changes no files. -/
def settle (s : Session) (r : Except Failure Outcome) : Outcome :=
  match r with
  | .ok o => o
  | .error f => s.fail f

def run (s : Session) : Command → Outcome
  | .version => s.succeed "tintlex 0.1.0\n" ""
  | .tokens language raw format file => s.settle (s.tokens language raw format file)
  | .check language files => s.settle (s.check language files)
  | .languages => s.succeed Language.listing ""
  | .categories => s.succeed Category.listing ""
  | .showConfig => s.settle s.showConfig
  | .initConfig => s.initConfig
  | .configPath => s.succeed (s.environment.configPath.text ++ "\n") ""

end Session

end Highlighter
