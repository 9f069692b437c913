import Highlighter.Text.Pieces

/-! Paths of files. -/

namespace Highlighter

structure Path where
  text : String
  deriving DecidableEq, Repr

namespace Path

/-- Whether it starts at the top, and not in the working directory. -/
def isAbsolute (p : Path) : Bool := p.text.toList.head? == some '/'

def endsInSlash (p : Path) : Bool := p.text.toList.getLast? == some '/'

/-- The names between the slashes. -/
def names (p : Path) : List String := (Text.parts '/' p.text.toList).map String.ofList

/-- The name that stays in a directory, and the name that leaves it. -/
def same : String := "."

def up : String := ".."

/-- The names to follow. A slash at the end stays in a directory. -/
def steps (p : Path) : List String := if p.endsInSlash then p.names ++ [same] else p.names

/-- The names that say where it leads. The name that stays in place counts only as
the first one of a path that starts in the working directory. -/
def components (p : Path) : List String :=
  match p.names with
  | [] => []
  | n :: ns => if p.isAbsolute then (n :: ns).filter (· ≠ same) else n :: ns.filter (· ≠ same)

/-- The components of the directory that it lies in. -/
def parent? (p : Path) : Option (List String) :=
  if p.components.isEmpty then none else some p.components.dropLast

/-- The path of a name in the directory of a path. -/
def join (p : Path) (name : String) : Path :=
  if p.text.isEmpty || p.endsInSlash then ⟨p.text ++ name⟩ else ⟨p.text ++ "/" ++ name⟩

end Path

end Highlighter
