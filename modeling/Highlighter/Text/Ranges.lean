/-! Sets of code points given as sorted lists of closed ranges. -/

namespace Highlighter.Text

/-- Closed ranges of code points, disjoint and in increasing order. -/
abbrev Ranges := List (Nat × Nat)

/-- The search stops at the first range that begins beyond the code point. -/
def Ranges.covers : Ranges → Nat → Bool
  | [], _ => false
  | (first, last) :: rest, n => first ≤ n && (n ≤ last || Ranges.covers rest n)

namespace Ranges

/-- Joins a range with those that follow it as far as they touch it. -/
def joined : Nat × Nat → List (Nat × Nat) → Ranges
  | r, [] => [r]
  | r, r' :: l => if r'.1 ≤ r.2 + 1 then joined (r.1, max r.2 r'.2) l else r :: joined r' l

/-- Ranges in any order, put in order and joined where they touch. -/
def ofList (l : List (Nat × Nat)) : Ranges :=
  match l.mergeSort fun x y => x.1 ≤ y.1 with
  | [] => []
  | r :: l => joined r l

/-- The code points from `next` on that the ranges leave out. -/
def gaps : Nat → Ranges → Ranges
  | next, [] => if next < 0x110000 then [(next, 0x10FFFF)] else []
  | next, (first, last) :: l =>
    (if next < first then [(next, first - 1)] else []) ++ gaps (last + 1) l

/-- The characters that the ranges leave out; surrogates are none. -/
def compl (l : Ranges) : Ranges := gaps 0 (ofList ((0xD800, 0xDFFF) :: l))

/-- The characters from `first` to `last`. -/
def between (first last : Nat) : Ranges :=
  if first < 0xD800 ∧ 0xDFFF < last then [(first, 0xD7FF), (0xE000, last)]
  else if first ≤ last then [(first, last)] else []

end Ranges

end Highlighter.Text
