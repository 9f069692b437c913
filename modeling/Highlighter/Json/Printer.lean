import Highlighter.Json.StringText

/-! Writing JSON values over several lines: each element or member is on its own
line, two blanks deeper than the brackets around it. -/

namespace Highlighter.Json

inductive Value where
  | text (s : String)
  | natural (n : Nat)
  | list (elements : List Value)
  | object (members : List (String × Value))

/-- A new line at a depth. -/
def newLine (depth : Nat) : List Char := '\n' :: List.replicate (2 * depth) ' '

/-- Items between brackets; brackets around nothing stay together. -/
def block (depth : Nat) (opening closing : Char) (items : List (List Char)) : List Char :=
  if items.isEmpty then [opening, closing]
  else
    let lines := items.map (newLine (depth + 1) ++ ·)
    opening :: [','].intercalate lines ++ newLine depth ++ [closing]

namespace Value

mutual

/-- The text of a value whose brackets stand at a depth. -/
def write (depth : Nat) : Value → List Char
  | text s => writeString s
  | natural n => Nat.toDigits 10 n
  | list vs => block depth '[' ']' (writeElements (depth + 1) vs)
  | object ms => block depth '\x7b' '\x7d' (writeMembers (depth + 1) ms)

def writeElements (depth : Nat) : List Value → List (List Char)
  | [] => []
  | v :: vs => v.write depth :: writeElements depth vs

def writeMembers (depth : Nat) : List (String × Value) → List (List Char)
  | [] => []
  | (name, v) :: ms => (writeString name ++ ": ".toList ++ v.write depth) :: writeMembers depth ms

end

/-- The text of a value. -/
def written (v : Value) : String := String.ofList (v.write 0)

end Value

end Highlighter.Json
