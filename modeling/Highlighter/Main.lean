import Highlighter.CommandLine.Run

/-! The program: it runs a command on the directories and files of the machine. -/

namespace Highlighter.Program

/-! ### The files of the machine -/

/-- Whether the machine has a directory at a path: only a directory holds itself. -/
def isDirectory (path : String) : IO Bool := do
  try
    let _ ← IO.FS.realPath (path ++ "/.")
    return true
  catch _ => return false

/-- The contents of a file of the machine, if it has one at a path. -/
def contents? (path : String) : IO (Option ByteArray) := do
  try return some (← IO.FS.readBinFile path)
  catch _ => return none

/-- Adds to a tree what the machine has along some names. The text is the path of
the directory that they start in. -/
def lookAlong (t : FileTree) (text : String) (p : Place) : List String → IO FileTree
  | [] => return t
  | name :: names => do
    let path := text ++ name
    if ← isDirectory path then
      let p := if name = Path.same then p else if name = Path.up then p.tail else name :: p
      lookAlong { t with directories := p :: t.directories } (path ++ "/") p names
    else match ← contents? path with
      | some bytes => return t.setContents (name :: p) bytes
      | none => return t

/-- Adds what the machine has along a path. -/
def look (t : FileTree) (path : Path) : IO FileTree :=
  lookAlong t (if path.isAbsolute then "/" else "") (t.start path.isAbsolute) path.names

/-- No files, and the working directory of the program. -/
def emptyTree : IO FileTree := do
  let working : Place := ((Path.mk (toString (← IO.currentDir))).names).reverse
  return ⟨(List.range working.length).map working.drop, [], working⟩

def pathOf (p : Place) : String := "/" ++ "/".intercalate p.reverse

/-- Makes the directories and files that a tree has beyond an earlier one. -/
def keep (earlier later : FileTree) : IO Unit := do
  for p in later.directories do
    unless earlier.hasDirectory p do IO.FS.createDirAll (pathOf p)
  for (p, bytes) in later.files do
    unless (earlier.contents? p).isSome do IO.FS.writeBinFile (pathOf p) bytes

/-! ### Running -/

/-- All bytes of a stream, behind those that are read already. -/
partial def readRest (stream : IO.FS.Stream) (bytes : ByteArray) : IO ByteArray := do
  let more ← stream.read 65536
  if more.isEmpty then return bytes else readRest stream (bytes ++ more)

/-- The files that a command reads. -/
def files : Command → List Path
  | .tokens _ _ _ file => file.toList
  | .check _ files => files
  | _ => []

def readsInput : Command → Bool
  | .tokens _ _ _ none => true
  | _ => false

def environment : IO Environment := do
  return ⟨← IO.getEnv "TINTLEX_CONFIG", ← IO.getEnv "HOME", ← IO.getEnv "RUST_LOG"⟩

def run (c : Command) : IO UInt32 := do
  let e ← environment
  let t ← (e.configPath :: files c).foldlM look (← emptyTree)
  let input ← if readsInput c then readRest (← IO.getStdin) .empty else pure .empty
  let o := Session.run ⟨e, input, t⟩ c
  keep t o.files
  IO.print o.out
  IO.eprint o.err
  return o.code.toUInt32

def usage : String :=
  "usage: tintlex tokens [-l LEXER] [--raw] [-f FORMAT] [FILE]\n" ++
  "       tintlex check [-l LEXER] FILE...\n" ++
  "       tintlex lexers | categories\n" ++
  "       tintlex config show | init | path\n"

end Highlighter.Program

def main (arguments : List String) : IO UInt32 := do
  match Highlighter.Command.ofArguments arguments with
  | some c => Highlighter.Program.run c
  | none =>
    IO.eprint Highlighter.Program.usage
    return 2
