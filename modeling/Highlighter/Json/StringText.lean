import Highlighter.Json.Fault

/-! Strings of JSON text: reading them and writing them. -/

namespace Highlighter.Json

/-! ### Reading -/

def hexDigit? (c : Char) : Option Nat :=
  if c.isDigit then some (c.toNat - '0'.toNat)
  else if 'a' ≤ c && c ≤ 'f' then some (c.toNat - 'a'.toNat + 10)
  else if 'A' ≤ c && c ≤ 'F' then some (c.toNat - 'A'.toNat + 10)
  else none

/-- The number that hexadecimal digits write. -/
def hexNumber? (ds : List Char) : Option Nat :=
  ds.foldl (fun n d => do return 16 * (← n) + (← hexDigit? d)) (some 0)

/-- Four hexadecimal digits. -/
def readHex (cs : List Char) : Read Nat :=
  if (Text.utf8 (cs.take 4)).length < 4 then .error (.here .endInString [])
  else match hexNumber? (cs.take 4) with
    | some n => .ok (n, cs.drop 4)
    | none => .error ⟨.badEscape, cs, 4⟩

/-- The second half of a character that takes two escapes. -/
def readLowHalf (high : Nat) (cs : List Char) : Read Char :=
  match cs with
  | [] | ['\\'] => .error (.here .endInString [])
  | '\\' :: 'u' :: cs => (readHex cs).andThen fun low cs =>
    if low < 0xDC00 || 0xDFFF < low then .error (.here .loneSurrogate cs)
    else .ok (Char.ofNat (0x10000 + (high - 0xD800) * 0x400 + (low - 0xDC00)), cs)
  | '\\' :: cs => .error (.ahead .unpairedSurrogate cs)
  | cs => .error (.ahead .unpairedSurrogate cs)

/-- The character of an escape by its number. In text that is skipped the halves
need not pair. -/
def readCodeEscape (kept : Bool) (cs : List Char) : Read Char :=
  (readHex cs).andThen fun n cs =>
  if !kept then .ok (Char.ofNat n, cs)
  else if 0xDC00 ≤ n && n ≤ 0xDFFF then .error (.here .loneSurrogate cs)
  else if 0xD800 ≤ n && n ≤ 0xDBFF then readLowHalf n cs
  else .ok (Char.ofNat n, cs)

/-- The character of an escape, after the backslash. -/
def readEscape (kept : Bool) : List Char → Read Char
  | [] => .error (.here .endInString [])
  | 'u' :: cs => readCodeEscape kept cs
  | '"' :: cs => .ok ('"', cs)
  | '\\' :: cs => .ok ('\\', cs)
  | '/' :: cs => .ok ('/', cs)
  | 'b' :: cs => .ok ('\x08', cs)
  | 'f' :: cs => .ok ('\x0C', cs)
  | 'n' :: cs => .ok ('\n', cs)
  | 'r' :: cs => .ok ('\r', cs)
  | 't' :: cs => .ok ('\t', cs)
  | cs => .error (.ahead .badEscape cs)

/-- The next character of a string, or none at its closing quote. -/
def readChar (kept : Bool) : List Char → Read (Option Char)
  | [] => .error (.here .endInString [])
  | '"' :: cs => .ok (none, cs)
  | '\\' :: cs => (readEscape kept cs).andThen fun c cs => .ok (some c, cs)
  | c :: cs =>
    if c.toNat < 0x20 then .error ⟨.control, c :: cs, if kept then 1 else 0⟩
    else .ok (some c, cs)

/-- At most `n` characters and the closing quote. -/
def readChars (kept : Bool) : Nat → List Char → Read (List Char)
  | 0, cs => .error (.here .endInString cs)
  | n + 1, cs => (readChar kept cs).andThen fun c cs =>
    match c with
    | none => .ok ([], cs)
    | some c => (readChars kept n cs).andThen fun s cs => .ok (c :: s, cs)

/-- A string after its opening quote. -/
def readString (cs : List Char) : Read String :=
  (readChars true (cs.length + 1) cs).andThen fun s cs => .ok (String.ofList s, cs)

/-- The text behind a string, of which only the form is checked. -/
def skipString (cs : List Char) : Except Stop (List Char) :=
  (readChars false (cs.length + 1) cs).andThen fun _ cs => .ok cs

/-! ### Writing -/

/-- Two hexadecimal digits. -/
def hexPair (n : Nat) : List Char := [Nat.digitChar (n / 16), Nat.digitChar (n % 16)]

/-- A character inside a string. -/
def writeChar (c : Char) : List Char :=
  if c = '"' || c = '\\' then ['\\', c]
  else if c = '\x08' then ['\\', 'b']
  else if c = '\x0C' then ['\\', 'f']
  else if c = '\n' then ['\\', 'n']
  else if c = '\r' then ['\\', 'r']
  else if c = '\t' then ['\\', 't']
  else if c.toNat < 0x20 then ['\\', 'u', '0', '0'] ++ hexPair c.toNat
  else [c]

/-- A string in its quotes. -/
def writeString (s : String) : List Char := '"' :: s.toList.flatMap writeChar ++ ['"']

end Highlighter.Json
