import Highlighter.Assoc
import Highlighter.Failure
import Highlighter.Files.Path

/-! A tree of directories and files, with one of its directories as the working
directory. -/

namespace Highlighter

/-- The names from a directory or a file up to the top, the nearest first. -/
abbrev Place := List String

structure FileTree where
  /-- All directories but the one at the top. -/
  directories : List Place
  files : List (Place × ByteArray)
  working : Place

/-- What a path leads to. -/
inductive Entry where
  | directory (p : Place)
  | file (contents : ByteArray)

namespace FileTree

def hasDirectory (t : FileTree) (p : Place) : Bool := p.isEmpty || t.directories.contains p

def contents? (t : FileTree) (p : Place) : Option ByteArray := t.files.lookup p

/-! ### Following paths -/

/-- What a name means in a directory. -/
def child (t : FileTree) (p : Place) (name : String) : Except FileRefusal Entry :=
  if name = Path.same then .ok (.directory p)
  else if name = Path.up then .ok (.directory p.tail)
  else if t.hasDirectory (name :: p) then .ok (.directory (name :: p))
  else match t.contents? (name :: p) with
    | some bytes => .ok (.file bytes)
    | none => .error .notFound

/-- Where names lead from an entry. Only directories lead on. -/
def follow (t : FileTree) (e : Entry) : List String → Except FileRefusal Entry
  | [] => .ok e
  | name :: names =>
    match e with
    | .file _ => .error .notADirectory
    | .directory p => (t.child p name).bind fun e => t.follow e names

/-- The directory that a path starts in. -/
def start (t : FileTree) (absolute : Bool) : Place := if absolute then [] else t.working

/-- What a path leads to. A path without text leads nowhere. -/
def find (t : FileTree) (p : Path) : Except FileRefusal Entry :=
  if p.text.isEmpty then .error .notFound
  else t.follow (.directory (t.start p.isAbsolute)) p.steps

def contains (t : FileTree) (p : Path) : Bool := (t.find p).toBool

/-- The directory that names lead to. -/
def directoryAt (t : FileTree) (absolute : Bool) (names : List String) :
    Except FileRefusal Place :=
  match t.follow (.directory (t.start absolute)) names with
  | .ok (.directory p) => .ok p
  | .ok (.file _) => .error .notADirectory
  | .error r => .error r

/-! ### Reading -/

/-- The text that bytes encode. -/
def decode (bytes : ByteArray) : Except AccessFailure String :=
  match String.fromUTF8? bytes with
  | some s => .ok s
  | none => .error .notText

/-- The text of a file. -/
def read (t : FileTree) (p : Path) : Except AccessFailure String :=
  match t.find p with
  | .ok (.file bytes) => decode bytes
  | .ok (.directory _) => .error (.refused .isADirectory)
  | .error r => .error (.refused r)

/-! ### Making directories -/

/-- Makes a directory in a directory that exists. -/
def makeDirectory (t : FileTree) (absolute : Bool) (names : List String) (name : String) :
    Except FileRefusal FileTree :=
  (t.directoryAt absolute names).bind fun p =>
    match t.child p name with
    | .ok _ => .error .alreadyExists
    | .error _ => .ok { t with directories := (name :: p) :: t.directories }

/-- Makes a directory in a directory that exists, unless it exists itself. What is
made stays, even if a later one is refused. -/
def ensureDirectory (t : FileTree) (absolute : Bool) (names : List String) (name : String) :
    FileTree × Option FileRefusal :=
  match t.makeDirectory absolute names name with
  | .ok t => (t, none)
  | .error r =>
    match t.directoryAt absolute (names ++ [name]) with
    | .ok _ => (t, none)
    | .error _ => (t, some r)

/-- Makes a directory and those that it lies in, as far as they are missing. Its
names are given the last one first. -/
def makeDirectories (t : FileTree) (absolute : Bool) : List String → FileTree × Option FileRefusal
  | [] => (t, none)
  | name :: outer =>
    match t.makeDirectory absolute outer.reverse name with
    | .error .notFound =>
      match t.makeDirectories absolute outer with
      | (t, none) => t.ensureDirectory absolute outer.reverse name
      | (t, some r) => (t, some r)
    | _ => t.ensureDirectory absolute outer.reverse name

/-! ### Writing -/

/-- Gives the file at a place its contents. -/
def setContents (t : FileTree) (p : Place) (bytes : ByteArray) : FileTree :=
  { t with files := Assoc.put p bytes t.files }

theorem contents?_setContents (t : FileTree) (p q : Place) (bytes : ByteArray) :
    (t.setContents p bytes).contents? q = if q = p then some bytes else t.contents? q :=
  Assoc.lookup_put p q bytes t.files

/-- Whether a name can be that of a file in a directory. -/
def canHoldFile (t : FileTree) (p : Place) (name : String) : Bool :=
  name ≠ Path.same && name ≠ Path.up && !t.hasDirectory (name :: p)

/-- Gives a file its contents, and makes it if it does not exist. -/
def write (t : FileTree) (p : Path) (bytes : ByteArray) : Except FileRefusal FileTree :=
  match p.names.getLast? with
  | none => .error (if p.text.isEmpty then .notFound else .isADirectory)
  | some name =>
    (t.directoryAt p.isAbsolute p.names.dropLast).bind fun d =>
      if p.endsInSlash || !t.canHoldFile d name then .error .isADirectory
      else .ok (t.setContents (name :: d) bytes)

end FileTree

end Highlighter
