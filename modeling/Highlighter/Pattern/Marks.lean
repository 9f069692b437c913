import Highlighter.Pattern.Basic

/-! Marks for every branch of a pattern. A search of the marked pattern comes to each
branch only once at each place of the text, so its time is bounded by the size of
the pattern and the length of the text together. -/

namespace Highlighter.Pattern

/-- Whether the pattern can match without taking a character. -/
def canBeEmpty : Pattern → Bool
  | empty | edge _ | mark _ => true
  | one _ => false
  | seq p q => p.canBeEmpty && q.canBeEmpty
  | alt p q => p.canBeEmpty || q.canBeEmpty
  | group _ p => p.canBeEmpty
  | rep p least _ _ => least == 0 || p.canBeEmpty

/-- Whether the pattern has a repetition. -/
def repeats : Pattern → Bool
  | empty | one _ | edge _ | mark _ => false
  | seq p q | alt p q => p.repeats || q.repeats
  | group _ p => p.repeats
  | rep _ _ _ _ => true

/-- A pattern and the first number after those of its marks, given its own first
number. -/
abbrev Numbered := Nat → Pattern × Nat

namespace Numbered

/-- One after the other, the marks of each with numbers of their own. -/
def andThen (m n : Numbered) : Numbered := fun i =>
  let (p, i) := m i
  let (q, i) := n i
  (seq p q, i)

/-- Comes to the pattern through a mark. -/
def behindMark (m : Numbered) : Numbered := fun i =>
  let (p, j) := m (i + 1)
  (seq (mark i) p, j)

/-- `n` copies in front of the last pattern. -/
def copies (m : Numbered) : Nat → Numbered → Numbered
  | 0, last => last
  | n + 1, last => m.andThen (m.copies n last)

/-- At most `n` copies. -/
def upTo (m : Numbered) (greedy : Bool) : Nat → Numbered
  | 0 => fun i => (empty, i)
  | n + 1 => behindMark fun i =>
    let (p, i) := m.andThen (m.upTo greedy n) i
    (rep p 0 (some 1) greedy, i)

/-- One repetition or more, with a mark at the end of each. -/
def plus (m : Numbered) (greedy : Bool) : Numbered := fun i =>
  let (p, j) := m (i + 1)
  (rep (seq p (mark i)) 1 none greedy, j)

/-- Any number of repetitions. The mark at the end of each is the one in front of the
first, unless a repetition can be empty. -/
def star (m : Numbered) (canBeEmpty greedy : Bool) : Numbered := fun i =>
  let last := if canBeEmpty then i + 1 else i
  let (p, j) := m (last + 1)
  (seq (mark i) (rep (seq p (mark last)) 0 none greedy), j)

end Numbered

/-- The pattern with a mark at every branch. Repetitions that are counted become
copies, unless there is no branch inside of them. -/
def marked : Pattern → Numbered
  | seq p q => p.marked.andThen q.marked
  | alt p q => .behindMark fun i =>
    let (p, i) := p.marked i
    let (q, i) := q.marked i
    (alt p q, i)
  | group n p => fun i =>
    let (p, i) := p.marked i
    (group n p, i)
  | rep p 0 none greedy => p.marked.star p.canBeEmpty greedy
  | rep p (n + 1) none greedy => p.marked.copies n (p.marked.plus greedy)
  | rep p least (some most) greedy =>
    if p.forks then p.marked.copies least (p.marked.upTo greedy (most - least))
    else .behindMark fun i => (rep p least (some most) greedy, i)
  | p => fun i => (p, i)

end Highlighter.Pattern
