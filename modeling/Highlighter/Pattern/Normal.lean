import Highlighter.Pattern.Basic
import Highlighter.Pattern.Members

/-! Patterns put together in normal form. A sequence stands in no other sequence and
a choice in no other choice, and alternatives of one character each are a set. What
all alternatives begin with is matched once, in front of the choice: which end of it
is taken counts for more than which alternative comes first. Patterns that take the
same normal form are alike, however they are spelled. -/

namespace Highlighter.Pattern

/-- Whether two patterns in normal form are alike. -/
def alike : Pattern → Pattern → Bool
  | one s, one t => s.same t
  | seq p p', seq q q' | alt p p', alt q q' => p.alike q && p'.alike q'
  | rep p least most greedy, rep q least' most' greedy' =>
    least == least' && most == most' && greedy == greedy' && p.alike q
  | p, q => p == q

/-! ### Sequences -/

/-- The patterns that follow one another in a sequence. -/
def parts : Pattern → List Pattern
  | empty => []
  | seq p q => p.parts ++ q.parts
  | p => [p]

/-- One pattern after the other. -/
def sequence (ps : List Pattern) : Pattern := seqs (ps.flatMap parts)

def isChar : Pattern → Bool
  | one s => s.only?.isSome
  | _ => false

/-- Characters that follow one another make one section; all else stands alone. -/
def grouped : List Pattern → List (List Pattern)
  | [] => []
  | p :: ps =>
    match grouped ps with
    | (q :: text) :: sections =>
      if p.isChar && q.isChar then (p :: q :: text) :: sections
      else [p] :: (q :: text) :: sections
    | sections => [p] :: sections

def sections (p : Pattern) : List Pattern := (grouped p.parts).map seqs

/-! ### Choices -/

def alternatives : Pattern → List Pattern
  | alt p q => p.alternatives ++ q.alternatives
  | p => [p]

/-- The set that several patterns make, all of which are single characters or all of
which are larger sets. -/
def merged? (ps : List Pattern) : Option CharSet :=
  if ps.all isChar || ps.all (!isChar ·) then
    ps.foldr
      (fun p s => match p, s with
        | one t, some s => some (.union t s)
        | _, _ => none)
      (some .nothing)
  else none

/-- The first pattern that fits. -/
def firstThatFits (ps : List Pattern) : Pattern :=
  match merged? ps with
  | some s => one s
  | none => alts ps

/-- What two sequences begin with. -/
def sharedStart : List Pattern → List Pattern → List Pattern
  | p :: ps, q :: qs => if p.alike q then p :: sharedStart ps qs else []
  | _, _ => []

/-- Puts what several sequences begin with in front of the choice between their
rests, unless one of them is a single section. -/
def factored? : List (List Pattern) → Option Pattern
  | [] => none
  | first :: others =>
    let start := others.foldl sharedStart first
    if start.isEmpty || (first :: others).any (·.length < 2) then none
    else
      let rests := (first :: others).map fun l => sequence (l.drop start.length)
      some (sequence (start ++ [firstThatFits (rests.flatMap alternatives)]))

/-- The first pattern that fits, after what all of them begin with. -/
def choice : List Pattern → Pattern
  | [p] => p
  | ps =>
    let ps := ps.flatMap alternatives
    (factored? (ps.map sections)).getD (firstThatFits ps)

/-! ### Repetitions -/

/-- Whether the pattern can match nothing but the empty text. -/
def takesNothing : Pattern → Bool
  | empty | edge _ | mark _ => true
  | one _ => false
  | seq p q | alt p q => p.takesNothing && q.takesNothing
  | group _ p | rep p _ _ _ => p.takesNothing

/-- Repetition; none at all is the empty text, whatever groups it would hold, and
exactly one is the pattern itself. What takes nothing is repeated at most once. -/
def repeated (p : Pattern) (least : Nat) (most : Option Nat) (greedy : Bool) : Pattern :=
  let (least, most) :=
    if p.takesNothing then (min least 1, some (min (most.getD 1) 1)) else (least, most)
  if most = some 0 then empty
  else if least = 1 ∧ most = some 1 then p
  else rep p least most greedy

end Highlighter.Pattern
