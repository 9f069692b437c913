import Std.Data.HashSet
import Highlighter.Pattern.Basic

/-! Matching by backtracking. A pattern is tried at a place in a text and hands
each place that it can reach, in the order of preference, to what follows it. A
search that comes to a mark for the second time at one place gives up there: what
lies behind the mark has failed by then, or is just being tried. -/

namespace Highlighter

/-- The text of a group, in characters from the start of the match. -/
structure Span where
  group : Nat
  start : Nat
  stop : Nat
  deriving DecidableEq, Repr

/-- How far a match has come: the character just behind, the text still ahead,
the number of characters taken and the groups recorded, the latest first. -/
structure Reach where
  before : Option Char
  rest : List Char
  taken : Nat
  spans : List Span
  deriving DecidableEq, Repr

namespace Reach

/-- A match that begins between `before` and `rest`. -/
def start (before : Option Char) (rest : List Char) : Reach := ⟨before, rest, 0, []⟩

/-- A new match that begins where this one stands. -/
def restart (r : Reach) : Reach := start r.before r.rest

/-- Takes one character of the set. -/
def take? (r : Reach) (s : CharSet) : Option Reach :=
  match r.rest with
  | c :: cs => if s.has c then some ⟨some c, cs, r.taken + 1, r.spans⟩ else none
  | [] => none

def atEdge (r : Reach) (e : Edge) : Bool := e.holds r.before r.rest.head?

/-- Records what was taken since `start` as the text of a group. -/
def record (r : Reach) (group start : Nat) : Reach :=
  { r with spans := ⟨group, start, r.taken⟩ :: r.spans }

/-- The latest text of a group. -/
def span? (r : Reach) (group : Nat) : Option Span := r.spans.find? (·.group == group)

end Reach

/-- The marks that a search has come through, each with the number of characters
taken before it. -/
abbrev Passed := Std.HashSet (Nat × Nat)

/-- A search for an answer. What it has come through stays known when it fails. -/
abbrev Search (β : Type) := Passed → Option β × Passed

namespace Search

variable {β : Type}

def fail : Search β := fun passed => (none, passed)

def answer (b : β) : Search β := fun passed => (some b, passed)

/-- The second search if the first one fails. -/
def orElse (s t : Search β) : Search β := fun passed =>
  match s passed with
  | (none, passed) => t passed
  | (some b, passed) => (some b, passed)

/-- The search, unless it was begun before with the same mark at the same place. -/
def once (number taken : Nat) (s : Search β) : Search β := fun passed =>
  if passed.contains (number, taken) then (none, passed) else s (passed.insert (number, taken))

end Search

namespace Pattern

variable {β : Type}

/-- A trial of a pattern: where it begins, and what has to accept its end. -/
abbrev Trial (β : Type) := Reach → (Reach → Search β) → Search β

/-- Another repetition first if greedy, none first if not. -/
def prefer (greedy : Bool) (more stop : Search β) : Search β :=
  if greedy then more.orElse stop else stop.orElse more

/-- Exactly `n` repetitions. -/
def runTimes (m : Trial β) : Nat → Trial β
  | 0, r, k => k r
  | n + 1, r, k => m r fun r' => runTimes m n r' k

/-- At most `n` repetitions. -/
def runUpTo (m : Trial β) (greedy : Bool) : Nat → Trial β
  | 0, r, k => k r
  | n + 1, r, k => prefer greedy (m r fun r' => runUpTo m greedy n r' k) (k r)

/-- Any number of repetitions that each take something; `n` bounds the text ahead. -/
def runOn (m : Trial β) (greedy : Bool) : Nat → Trial β
  | 0, r, k => k r
  | n + 1, r, k =>
    prefer greedy
      (m r fun r' => if r.taken < r'.taken then runOn m greedy n r' k else .fail) (k r)

/-- One repetition or more. A first one that takes nothing is also the last. -/
def runPlus (m : Trial β) (greedy : Bool) : Trial β := fun r k =>
  m r fun r' => if r.taken < r'.taken then runOn m greedy r'.rest.length r' k else k r'

def runRep (m : Trial β) (least : Nat) (most : Option Nat) (greedy : Bool) : Trial β :=
  match least, most with
  | 0, none => fun r k => prefer greedy (runPlus m greedy r k) (k r)
  | n + 1, none => fun r k => runTimes m n r fun r' => runPlus m greedy r' k
  | n, some top => fun r k => runTimes m n r fun r' => runUpTo m greedy (top - n) r' k

/-- The answer of `k` to the first end of `p` that it accepts. -/
def run : Pattern → Trial β
  | empty, r, k => k r
  | one s, r, k => (r.take? s).elim .fail k
  | edge e, r, k => if r.atEdge e then k r else .fail
  | seq p q, r, k => p.run r fun r' => q.run r' k
  | alt p q, r, k => (p.run r k).orElse (q.run r k)
  | group i p, r, k => p.run r fun r' => k (r'.record i r.taken)
  | rep p least most greedy, r, k => runRep p.run least most greedy r k
  | mark i, r, k => (k r).once i r.taken

/-- The preferred match of `p` at a place. -/
def match? (p : Pattern) (r : Reach) : Option Reach := (p.run r .answer ∅).1

end Pattern

end Highlighter
