import Highlighter.Pattern.Marks
import Highlighter.Pattern.Normal

/-! The size of a pattern: the bytes of an automaton that reads UTF-8 byte by byte and
has a copy of its own for each counted repetition. It is built forwards, with the
groups, and backwards, where sets take more room. -/

namespace Highlighter.Pattern

/-! ### Sets -/

/-- A range of numbers of `n + 1` digits to the base 64 as sequences of ranges of
digits, in order. -/
def digitSequences : Nat → Nat → Nat → List Text.Ranges
  | 0, first, last => [[(first, last)]]
  | n + 1, first, last =>
    let unit := Nat.pow 64 (n + 1)
    let low := first / unit
    let high := last / unit
    if low = high then (digitSequences n (first % unit) (last % unit)).map ((low, low) :: ·)
    else
      let below := if first % unit = 0 then []
        else (digitSequences n (first % unit) (unit - 1)).map ((low, low) :: ·)
      let above := if last % unit = unit - 1 then []
        else (digitSequences n 0 (last % unit)).map ((high, high) :: ·)
      let start := if below.isEmpty then low else low + 1
      let stop := if above.isEmpty then high + 1 else high
      let between := if start < stop
        then (digitSequences n 0 (unit - 1)).map ((start, stop - 1) :: ·) else []
      below ++ between ++ above

/-- A range of code points as sequences of ranges of bytes. Of a byte that continues a
character only the digit is kept. -/
def byteSequences (r : Nat × Nat) : List Text.Ranges :=
  [(0, 0x7F, 0, 0), (0x80, 0x7FF, 1, 0xC0), (0x800, 0xFFFF, 2, 0xE0),
    (0x10000, 0x10FFFF, 3, 0xF0)].flatMap fun (least, greatest, n, lead) =>
    let first := max r.1 least
    let last := min r.2 greatest
    if last < first then []
    else (digitSequences n first last).map fun
      | (low, high) :: l => (lead + low, lead + high) :: l
      | [] => []

/-- What follows each range that sequences begin with, in groups. -/
def continuations (sequences : List Text.Ranges) : List (List Text.Ranges) :=
  (sequences.filterMap (·.head?)).eraseDups.map fun r =>
    sequences.filterMap fun l => if l.head? == some r then some l.tail else none

/-- The different groups of sequences that are to be told apart, at most `n` bytes deep. -/
def nodes : Nat → List Text.Ranges → List (List Text.Ranges)
  | 0, _ => []
  | n + 1, sequences =>
    sequences :: (((continuations sequences).filter (· != [[]])).flatMap (nodes n))

/-- How many places of sequences in order do not lie in the beginning that each shares
with the one before. -/
def newPlaces : Text.Ranges → List Text.Ranges → Nat
  | _, [] => 0
  | before, l :: ls =>
    l.length - ((l.zip before).takeWhile fun (x, y) => x == y).length + newPlaces l ls

/-- The size of a set forwards: groups of sequences that are equal are one. -/
def setForwards (s : CharSet) : Nat :=
  let ranges := s.ranges
  if ranges.all (·.2 < 128) then 64 + 8 * ranges.length
  else
    let nodes := (nodes 4 (ranges.flatMap byteSequences)).eraseDups
    32 + (nodes.map fun sequences => 32 + 8 * (continuations sequences).length).foldr (· + ·) 0

/-- The size of a set backwards: sequences that begin alike share their beginning. -/
def setBackwards (s : CharSet) : Nat :=
  let ranges := s.ranges
  if ranges.all (·.2 < 128) then 64 + 8 * ranges.length
  else
    let sequences := ranges.flatMap byteSequences
    64 + 4 * sequences.length + 32 * newPlaces [] sequences

/-! ### Choices between texts -/

/-- The texts between the empty ones. -/
def runs : List (List UInt8) → List (List (List UInt8))
  | [] => [[]]
  | [] :: texts => [] :: runs texts
  | text :: texts =>
    match runs texts with
    | run :: rest => (text :: run) :: rest
    | [] => [[text]]

/-- The size of a tree of texts, at most `n` bytes deep. -/
def treeSize : Nat → List (List UInt8) → Nat
  | 0, _ => 0
  | n + 1, texts =>
    let runs := runs texts
    let filled := runs.filter (!·.isEmpty)
    let branches := filled.map fun run =>
      let firsts := (run.filterMap (·.head?)).eraseDups
      let below := firsts.map fun b =>
        let rests := run.filterMap fun text => if text.head? == some b then some text.tail else none
        if rests.all (·.isEmpty) then 0 else treeSize n rests
      32 + (if firsts.length = 1 then 0 else 8 * firsts.length) + below.foldr (· + ·) 0
    32 + 4 * (filled.length + runs.length - 1) + branches.foldr (· + ·) 0

/-- The bytes of a choice between texts, in the order of the choice. -/
def texts? : Pattern → Option (List (List UInt8))
  | one s => s.only?.map fun c => [String.utf8EncodeChar c]
  | seq p q =>
    match p.texts?, q.texts? with
    | some [s], some [t] => some [s ++ t]
    | _, _ => none
  | alt p q =>
    match p.texts?, q.texts? with
    | some l, some l' => some (l ++ l')
    | _, _ => none
  | _ => none

/-! ### Patterns -/

/-- What the size of a pattern is counted with. -/
structure Scale where
  set : CharSet → Nat
  group : Nat
  /-- The bytes of a text in the order in which they are read. -/
  order : List UInt8 → List UInt8
  /-- What every pattern takes. -/
  base : Nat

def Scale.forwards : Scale := ⟨setForwards, 64, id, 208⟩

def Scale.backwards : Scale := ⟨setBackwards, 0, List.reverse, 144⟩

/-- The size of a pattern in normal form on its own, and as the last of the
alternatives of a choice. -/
def sizes (m : Scale) : Pattern → Nat × Nat
  | empty | edge _ | mark _ => single 32
  | one s => single (s.only?.elim (m.set s) (32 * ·.utf8Size))
  | seq p q => single ((p.sizes m).1 + (q.sizes m).1)
  | alt p q =>
    let branches := (p.sizes m).1 + 4 + (q.sizes m).2
    match (alt p q).texts? with
    | some texts => (32 + treeSize ((texts.map (·.length)).foldr (· + ·) 0) (texts.map m.order), branches)
    | none => (64 + branches, branches)
  | group _ p => single ((p.sizes m).1 + m.group)
  | rep p 0 (some 1) _ => single ((p.sizes m).1 + 72)
  | rep p 0 none _ => single ((p.sizes m).1 + if p.canBeEmpty then 112 else 40)
  | rep p (n + 1) none _ => single ((n + 1) * (p.sizes m).1 + 40)
  | rep p least (some most) _ =>
    let copies := most * (p.sizes m).1
    if least = most then single copies
    else single (copies + 40 * (most - least) + if least = 0 then 64 else 32)
where
  single (n : Nat) : Nat × Nat := (n, n + 4)

def size (p : Pattern) (m : Scale) : Nat := (p.sizes m).1 + m.base

/-- The greatest size of a pattern, 10 MiB. -/
def sizeLimit : Nat := 10 * .pow 2 20

/-- Whether the pattern keeps to the greatest size both ways. -/
def fits (p : Pattern) : Bool := p.size .forwards ≤ sizeLimit && p.size .backwards ≤ sizeLimit

end Highlighter.Pattern
