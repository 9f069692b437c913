import Highlighter.Config.Basic
import Highlighter.Json.Printer

/-! The listings that commands print. -/

namespace Highlighter

namespace Text

/-- A text filled up with blanks on the right. -/
def padded (width : Nat) (s : String) : String :=
  s ++ String.ofList (List.replicate (width - s.length) ' ')

end Text

namespace Token

/-- A category and a quoted text on one line. -/
def line (t : Token) : String := Text.padded 45 t.kind.fullName ++ " " ++ Text.quoted t.text ++ "\n"

def value (t : Token) : Json.Value :=
  .object [("line", .natural t.location.line), ("position", .natural t.location.column),
    ("kind", .text t.kind.fullName), ("value", .text t.text)]

/-- Tokens in a form of output. -/
def listing (format : OutputFormat) (tokens : List Token) : String :=
  match format with
  | .plain => String.join (tokens.map line)
  | .json => (Json.Value.list (tokens.map value)).written ++ "\n"

end Token

namespace Language

/-- A language with its other names and its description. -/
def entry (l : Language) : String :=
  l.tag ++ " (" ++ l.title ++ ")\n  aliases: " ++ ", ".intercalate l.aliases ++ "\n  " ++
    l.description ++ "\n"

def listing : String := String.join (all.map entry)

end Language

namespace Category

/-- A category below its ancestors, with its short name. -/
def line (c : Category) : String :=
  let indent := 2 * c.depth
  Text.padded indent "" ++ Text.padded (28 - indent) c.fullName ++ " " ++ c.styleClass ++ "\n"

def listing : String := String.join (all.map line)

end Category

end Highlighter
