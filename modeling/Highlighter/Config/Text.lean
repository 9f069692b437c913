import Highlighter.Config.Basic
import Highlighter.Json.Decode
import Highlighter.Json.Printer

/-! The text of a configuration: an object with a member for each field. A text may
leave out fields, which then have their default values, may hold other members, and
may be a list of the fields in their order. -/

namespace Highlighter.Config

open Json

/-! ### Reading -/

/-- The format of a name, or the fault behind the name. -/
def formatOf (name : String) (cs : List Char) : Read OutputFormat :=
  match OutputFormat.ofName? name with
  | some f => .ok (f, cs)
  | none => .error (.here (.unknownVariant name (OutputFormat.all.map OutputFormat.name)) cs)

/-- A format as an object: its name with the value null. -/
def readFormatObject (cs : List Char) : Read OutputFormat :=
  (readText "variant identifier" cs).andThen fun name cs =>
  (formatOf name cs).andThen fun f cs =>
  (skipColon cs).bind fun cs =>
  (readNull cs).bind fun cs =>
    match skipBlanks cs with
    | '}' :: cs => .ok (f, cs)
    | [] => .error (.here .endInObject [])
    | cs => .error (.here .noValue cs)

def readFormat (cs : List Char) : Read OutputFormat :=
  match skipBlanks cs with
  | '{' :: cs => readFormatObject cs
  | '"' :: cs => (readString cs).andThen formatOf
  | [] => .error (.here .endInValue [])
  | cs => .error (.ahead .noValue cs)

/-- One alias, after its name. -/
def readAlias (a : Aliases) (name : String) (cs : List Char) : Read Aliases :=
  (skipColon cs).bind fun cs =>
  (readText "a string" cs).andThen fun tag cs => .ok (a.insert name tag, cs)

def readAliases (cs : List Char) : Read Aliases :=
  match skipBlanks cs with
  | '{' :: cs => readObject readAlias .empty cs
  | cs => .error (mismatch "a map" cs)

/-- The fields that are read so far. -/
structure Fields where
  defaultLanguage : Option String
  format : Option OutputFormat
  aliases : Option Aliases
  deriving DecidableEq, Repr

namespace Fields

def unread : Fields := ⟨none, none, none⟩

def config (f : Fields) : Config :=
  ⟨f.defaultLanguage.getD default.defaultLanguage, f.format.getD default.format,
    f.aliases.getD default.aliases⟩

def readDefaultLanguage (f : Fields) (cs : List Char) : Read Fields :=
  (readText "a string" cs).andThen fun s cs => .ok ({ f with defaultLanguage := some s }, cs)

def readFormat (f : Fields) (cs : List Char) : Read Fields :=
  (Config.readFormat cs).andThen fun x cs => .ok ({ f with format := some x }, cs)

def readAliases (f : Fields) (cs : List Char) : Read Fields :=
  (Config.readAliases cs).andThen fun a cs => .ok ({ f with aliases := some a }, cs)

/-- A field that is given twice is a fault where the object seems to end. -/
def duplicate (name : String) (cs : List Char) : Stop :=
  match skipBlanks cs with
  | '}' :: cs => .here (.duplicateField name) cs
  | cs => .here (.duplicateField name) cs

/-- One member, after its name. -/
def readMember (f : Fields) (name : String) (cs : List Char) : Read Fields :=
  match name with
  | "default_lexer" =>
    if f.defaultLanguage.isSome then .error (duplicate name cs)
    else (skipColon cs).bind f.readDefaultLanguage
  | "format" =>
    if f.format.isSome then .error (duplicate name cs) else (skipColon cs).bind f.readFormat
  | "aliases" =>
    if f.aliases.isSome then .error (duplicate name cs) else (skipColon cs).bind f.readAliases
  | _ => ((skipColon cs).bind skipValue).map (f, ·)

end Fields

def readFields (cs : List Char) : Read Fields :=
  match skipBlanks cs with
  | '{' :: cs => readObject Fields.readMember .unread cs
  | '[' :: cs =>
    readElements [Fields.readDefaultLanguage, Fields.readFormat, Fields.readAliases] true .unread cs
  | cs => .error (mismatch "struct Config" cs)

/-- The configuration that a text describes, or the text of its fault. -/
def ofText (text : String) : Except String Config :=
  match readAll readFields text.toList with
  | .ok f => .ok f.config
  | .error e => .error (e.message text.toList)

/-! ### Writing -/

def value (c : Config) : Json.Value :=
  .object [("default_lexer", .text c.defaultLanguage), ("format", .text c.format.name),
    ("aliases", .object (c.aliases.entries.map fun e => (e.1, .text e.2)))]

/-- The text of a configuration with all its fields. -/
def text (c : Config) : String := c.value.written

end Highlighter.Config
