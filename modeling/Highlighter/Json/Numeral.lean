import Highlighter.Json.Fault
import Highlighter.Number.Shortest

/-! Numbers of JSON text. Whole numbers of 64 bits are exact; all others are binary
floating-point numbers, of which the digits that fit into 64 bits count. -/

namespace Highlighter.Json

inductive Numeral where
  | natural (n : Nat)
  /-- The negative of a positive number. -/
  | negative (n : Nat)
  | real (negative : Bool) (b : Number.Binary)
  deriving DecidableEq, Repr

/-- A number as a found value. -/
def Numeral.described : Numeral → String
  | natural n => "integer " ++ marked (toString n)
  | negative n => "integer " ++ marked ("-" ++ toString n)
  | real isNegative b =>
    "floating point " ++ marked ((if isNegative then "-" else "") ++ b.text)

/-! ### Digits -/

def digitValue (c : Char) : Nat := c.toNat - '0'.toNat

/-- Continues a number with digits as long as it stays below a bound; also the
count of these digits, and the text from the first digit that is too much. -/
def gather (bound : Nat) : Nat → Nat → List Char → Nat × Nat × List Char
  | n, count, [] => (n, count, [])
  | n, count, c :: cs =>
    if c.isDigit && 10 * n + digitValue c < bound then
      gather bound (10 * n + digitValue c) (count + 1) cs
    else (n, count, c :: cs)

def startsWithDigit (cs : List Char) : Bool := cs.head?.any Char.isDigit

def skipDigits (cs : List Char) : List Char := cs.dropWhile Char.isDigit

/-- A sign of an exponent: whether it is negative. -/
def readSign : List Char → Bool × List Char
  | '-' :: cs => (true, cs)
  | '+' :: cs => (false, cs)
  | cs => (false, cs)

/-! ### Reading -/

/-- The bounds of digits that count, and of exponents. -/
def digitsBound : Nat := .pow 2 64

def exponentBound : Nat := .pow 2 31

/-- The number that digits and an exponent stand for. -/
def realOf (negative : Bool) (digits : Nat) (exponent : Int) (cs : List Char) : Read Numeral :=
  match Number.Binary.ofDecimal digits exponent with
  | some b => .ok (.real negative b, cs)
  | none => .error (.here .numberOutOfRange cs)

/-- An exponent, after its letter. -/
def readExponent (negative : Bool) (digits : Nat) (exponent : Int) (cs : List Char) :
    Read Numeral :=
  let (below, cs) := readSign cs
  match cs with
  | [] => .error (.here .endInValue [])
  | c :: cs =>
    if !c.isDigit then .error ⟨.badNumber, c :: cs, 1⟩
    else
      let (e, _, cs) := gather exponentBound (digitValue c) 1 cs
      if startsWithDigit cs then
        if digits ≠ 0 && !below then .error (.ahead .numberOutOfRange cs)
        else .ok (.real negative .zero, skipDigits cs)
      else realOf negative digits (if below then exponent - e else exponent + e) cs

/-- What may follow the digits of a number that is not whole. -/
def readRealEnd (negative : Bool) (digits : Nat) (exponent : Int) : List Char → Read Numeral
  | 'e' :: cs | 'E' :: cs => readExponent negative digits exponent cs
  | cs => realOf negative digits exponent cs

/-- The digits behind a decimal point. -/
def readDecimals (negative : Bool) (digits : Nat) (exponent : Int) (cs : List Char) :
    Read Numeral :=
  if !startsWithDigit cs then
    .error (.ahead (if cs.isEmpty then .endInValue else .badNumber) cs)
  else
    let (n, count, cs) := gather digitsBound digits 0 cs
    readRealEnd negative n (exponent - count) (skipDigits cs)

/-- What follows the digits before a decimal point. -/
def readFraction (negative : Bool) (digits : Nat) (exponent : Int) : List Char → Read Numeral
  | '.' :: cs => readDecimals negative digits exponent cs
  | cs => readRealEnd negative digits exponent cs

/-- A whole number, unless it has no exact form: a negative zero, or one beyond 64 bits. -/
def wholeNumeral (negative : Bool) (n : Nat) (cs : List Char) : Read Numeral :=
  if !negative then .ok (.natural n, cs)
  else if n = 0 || .pow 2 63 < n then realOf true n 0 cs
  else .ok (.negative n, cs)

/-- A number after its sign. -/
def readNumeral (negative : Bool) : List Char → Read Numeral
  | [] => .error (.here .endInValue [])
  | c :: cs =>
    if !c.isDigit then .error ⟨.badNumber, c :: cs, 1⟩
    else if c = '0' && startsWithDigit cs then .error (.ahead .badNumber cs)
    else
      let (n, _, rest) := gather digitsBound (digitValue c) 1 cs
      if startsWithDigit rest then
        let behind := skipDigits rest
        readFraction negative n (rest.length - behind.length : Nat) behind
      else match rest with
        | '.' :: _ | 'e' :: _ | 'E' :: _ => readFraction negative n 0 rest
        | _ => wholeNumeral negative n rest

/-! ### Skipping -/

/-- An exponent, after its letter. -/
def skipExponent (cs : List Char) : Except Stop (List Char) :=
  let (_, cs) := readSign cs
  if startsWithDigit cs then .ok (skipDigits cs) else .error (.ahead .badNumber cs)

def skipRealEnd : List Char → Except Stop (List Char)
  | 'e' :: cs | 'E' :: cs => skipExponent cs
  | cs => .ok cs

/-- The text behind a number, of which only the form is checked, after its sign. -/
def skipNumeral : List Char → Except Stop (List Char)
  | [] => .error (.here .badNumber [])
  | c :: cs =>
    if !c.isDigit then .error ⟨.badNumber, c :: cs, 1⟩
    else if c = '0' && startsWithDigit cs then .error (.ahead .badNumber cs)
    else match skipDigits cs with
      | '.' :: cs =>
        if startsWithDigit cs then skipRealEnd (skipDigits cs) else .error (.ahead .badNumber cs)
      | cs => skipRealEnd cs

end Highlighter.Json
