import Highlighter.Pattern.CharSet

/-! Patterns: regular expressions with groups, edges and bounded repetition, and
the ways to put them together. -/

namespace Highlighter

/-- Conditions on the two characters around a place. -/
inductive Edge where
  | textStart | textEnd | lineStart | lineEnd | wordBoundary | noWordBoundary | wordStart | wordEnd
  deriving DecidableEq, Repr

/-- Whether a place between `before` and `after` is such an edge; only a newline
ends a line. -/
def Edge.holds (e : Edge) (before after : Option Char) : Bool :=
  let wordBefore := before.any Text.isWord
  let wordAfter := after.any Text.isWord
  match e with
  | textStart => before.isNone
  | textEnd => after.isNone
  | lineStart => before.all (· == '\n')
  | lineEnd => after.all (· == '\n')
  | wordBoundary => wordBefore != wordAfter
  | noWordBoundary => wordBefore == wordAfter
  | wordStart => !wordBefore && wordAfter
  | wordEnd => wordBefore && !wordAfter

inductive Pattern where
  /-- The empty text. -/
  | empty
  /-- One character of a set. -/
  | one (s : CharSet)
  | edge (e : Edge)
  | seq (p q : Pattern)
  /-- `p`, or else `q`. -/
  | alt (p q : Pattern)
  /-- `p`, with its text recorded under a number. -/
  | group (index : Nat) (p : Pattern)
  /-- `p` from `least` to `most` times, `greedy` if more is preferred. -/
  | rep (p : Pattern) (least : Nat) (most : Option Nat) (greedy : Bool)
  /-- The empty text, but a search comes through it only once at each place. -/
  | mark (number : Nat)
  deriving DecidableEq, Repr

namespace Pattern

/-- One pattern after the other. -/
def seqs : List Pattern → Pattern
  | [] => empty
  | [p] => p
  | p :: ps => seq p (seqs ps)

/-- The first pattern that fits, in the order of the list. -/
def alts : List Pattern → Pattern
  | [] => empty
  | [p] => p
  | p :: ps => alt p (alts ps)

def char (c : Char) : Pattern := one (.char c)

/-- The text itself. -/
def lit (s : String) : Pattern := seqs (s.toList.map char)

/-- The text in any case. -/
def anyCase (s : String) : Pattern := seqs (s.toList.map fun c => one (.anyCase (.char c)))

/-- One of several texts; the earlier wins. -/
def oneOf (words : List String) : Pattern := alts (words.map lit)

/-- One of several texts, in any case. -/
def oneOfAnyCase (words : List String) : Pattern := alts (words.map anyCase)

def star (p : Pattern) : Pattern := rep p 0 none true

def plus (p : Pattern) : Pattern := rep p 1 none true

def opt (p : Pattern) : Pattern := rep p 0 (some 1) true

def times (n : Nat) (p : Pattern) : Pattern := rep p n (some n) true

/-- As few repetitions as the rest of the pattern allows. -/
def lazyStar (p : Pattern) : Pattern := rep p 0 none false

def lineStart : Pattern := edge .lineStart

def lineEnd : Pattern := edge .lineEnd

def boundary : Pattern := edge .wordBoundary

/-- A pattern that stands between word boundaries. -/
def whole (p : Pattern) : Pattern := seqs [boundary, p, boundary]

/-- One of several texts, standing between word boundaries. -/
def wholeWord (words : List String) : Pattern := whole (oneOf words)

/-- One character that does not end the line. -/
def dot : Pattern := one (.compl .newline)

/-- The numbers of the groups, once for each group. -/
def groupNumbers : Pattern → List Nat
  | empty | one _ | edge _ | mark _ => []
  | seq p q | alt p q => p.groupNumbers ++ q.groupNumbers
  | group i p => i :: p.groupNumbers
  | rep p _ _ _ => p.groupNumbers

def groupCount (p : Pattern) : Nat := p.groupNumbers.eraseDups.length

/-- Whether the pattern leaves a choice: an alternative, or a count of repetitions. -/
def forks : Pattern → Bool
  | empty | one _ | edge _ | mark _ => false
  | seq p q => p.forks || q.forks
  | alt _ _ => true
  | group _ p => p.forks
  | rep p least most _ => most != some least || p.forks

/-- Whether no part of the pattern is a mark. -/
def unmarked : Pattern → Bool
  | empty | one _ | edge _ => true
  | seq p q | alt p q => p.unmarked && q.unmarked
  | group _ p | rep p _ _ _ => p.unmarked
  | mark _ => false

end Pattern

end Highlighter
