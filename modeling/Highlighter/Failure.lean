import Highlighter.Language
import Highlighter.Text.Quoted

/-! What can go wrong, with the two texts of each failure: the message for the
user, and the detailed form in which a failing command ends. -/

namespace Highlighter

/-- Refusals of the file system. -/
inductive FileRefusal where
  | notFound | alreadyExists | notADirectory | isADirectory
  deriving DecidableEq, Repr

namespace FileRefusal

def code : FileRefusal → Nat
  | notFound => 2
  | alreadyExists => 17
  | notADirectory => 20
  | isADirectory => 21

def kind : FileRefusal → String
  | notFound => "NotFound"
  | alreadyExists => "AlreadyExists"
  | notADirectory => "NotADirectory"
  | isADirectory => "IsADirectory"

def text : FileRefusal → String
  | notFound => "No such file or directory"
  | alreadyExists => "File exists"
  | notADirectory => "Not a directory"
  | isADirectory => "Is a directory"

end FileRefusal

/-- Why text could not be read or written. -/
inductive AccessFailure where
  | refused (r : FileRefusal)
  /-- The bytes are not UTF-8. -/
  | notText
  | other (message : String)
  deriving DecidableEq, Repr

namespace AccessFailure

/-- A record in braces, in the detailed form. -/
def record (name fields : String) : String := name ++ " \x7b " ++ fields ++ " \x7d"

def notTextMessage : String := "stream did not contain valid UTF-8"

def message : AccessFailure → String
  | refused r => s!"{r.text} (os error {r.code})"
  | notText => notTextMessage
  | other m => m

def details : AccessFailure → String
  | refused r =>
    record "Os" s!"code: {r.code}, kind: {r.kind}, message: {Text.quoted r.text}"
  | notText => record "Error" s!"kind: InvalidData, message: {Text.quoted notTextMessage}"
  | other m => record "Custom" s!"kind: Other, error: {Text.quoted m}"

end AccessFailure

inductive Failure where
  | fileNotFound (path : String)
  | access (a : AccessFailure)
  | unknownLanguage (name : String)
  /-- A rule table entry is refused. -/
  | pattern (subject message : String)
  /-- The configuration file at a path is refused. -/
  | config (message : String)
  | json (message : String)
  /-- Tokens do not reproduce their source from a byte offset on. -/
  | divergence (path : String) (language : Language) (offset : Nat)
  deriving DecidableEq, Repr

namespace Failure

/-- The message for the user, with the end of its line. -/
def message : Failure → String
  | fileNotFound path => s!"FileNotFoundError: {path}\n"
  | access a => s!"IOError: {a.message}\n"
  | unknownLanguage name =>
    s!"UnknownLexerError: no lexer named '{name}' (run `tintlex lexers` for the list)\n"
  | pattern subject m => s!"PatternError: {m}\n  --> pattern: {subject}\n"
  | config m => s!"ConfigError: {m}\n"
  | json m => s!"JsonError: {m}\n"
  | divergence path language offset =>
    s!"RoundTripError: {language.tag} lexer output diverges from the input\n" ++
      s!"  --> {path}:byte {offset}\n"

/-- The name of the kind of failure. -/
def kind : Failure → String
  | fileNotFound _ => "FileNotFound"
  | access _ => "IO"
  | unknownLanguage _ => "UnknownLexer"
  | pattern _ _ => "Pattern"
  | config _ => "Config"
  | json _ => "Json"
  | divergence _ _ _ => "RoundTrip"

/-- The detailed form. -/
def details (f : Failure) : String :=
  match f with
  | fileNotFound s | unknownLanguage s | config s | json s => s!"{f.kind}({Text.quoted s})"
  | access a => s!"{f.kind}({a.details})"
  | pattern subject m =>
    let fields := s!"pattern: {Text.quoted subject}, message: {Text.quoted m}"
    f.kind ++ "(" ++ AccessFailure.record "PatternError" fields ++ ")"
  | divergence path language offset =>
    let fields := s!"path: {Text.quoted path}, lexer: {Text.quoted language.tag}, offset: {offset}"
    f.kind ++ "(" ++ AccessFailure.record "RoundTripError" fields ++ ")"

end Failure

end Highlighter
