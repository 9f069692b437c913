import Highlighter.Pattern.CharSet

/-! The characters of a set as ranges of code points. Two sets are the same if their
ranges are. -/

namespace Highlighter.CharSet

def ranges : CharSet → Text.Ranges
  | range first last => .between first.toNat last.toNat
  | word => Text.wordRanges
  | digit => Text.digitRanges
  | space => Text.spaceRanges
  | nothing => []
  | union s t => .ofList (s.ranges ++ t.ranges)
  | inter s t => .compl (.ofList (Text.Ranges.compl s.ranges ++ Text.Ranges.compl t.ranges))
  | compl s => .compl s.ranges
  | anyCase s =>
    let cased := Text.casedCodes.filter fun n => (Text.caseVariants (.ofNat n)).any s.has
    .ofList (s.ranges ++ cased.map fun n => (n, n))

/-- Whether two sets have the same characters. -/
def same (s t : CharSet) : Bool := s == t || s.ranges == t.ranges

/-- The character of a set that has only one. -/
def only? (s : CharSet) : Option Char :=
  match s with
  | range first last => if first = last then some first else none
  | _ =>
    match s.ranges with
    | [(first, last)] => if first = last then some (.ofNat first) else none
    | _ => none

end Highlighter.CharSet
