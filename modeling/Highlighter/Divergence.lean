import Highlighter.Text.Slice
import Highlighter.Text.Utf8
import Highlighter.Token

/-! Where tokens stop reproducing their source. -/

namespace Highlighter

namespace Text

/-- The number of bytes up to the first difference. -/
def commonLength : List UInt8 → List UInt8 → Nat
  | a :: as, b :: bs => if a = b then commonLength as bs + 1 else 0
  | _, _ => 0

end Text

/-- The offset at which the tokens stop reproducing the source from `offset` on. A token whose
text cannot be cut out of the source differs from it; there is no answer at all if what is
left of the source cannot be cut off. -/
def divergenceFrom? (source : String) (offset : Nat) : List Token → Option (Option Nat)
  | [] => some (if offset = source.utf8ByteSize then none else some offset)
  | t :: ts =>
    let stop := offset + t.text.utf8ByteSize
    if Text.slice? source offset stop = some t.text then divergenceFrom? source stop ts
    else (Text.slice? source offset source.utf8ByteSize).map fun rest =>
      some (offset + Text.commonLength (Text.utf8 rest.toList) (Text.utf8 t.text.toList))

/-- Each cut begins where a character of the source does. -/
theorem isSome_divergenceFrom? {source : String} {offset : Nat}
    (h : Text.IsOffset source offset) (ts : List Token) :
    (divergenceFrom? source offset ts).isSome := by
  induction ts generalizing offset with
  | nil => rfl
  | cons t ts ih =>
    simp only [divergenceFrom?]
    split
    · next hslice => exact ih (Text.isOffset_of_slice? hslice)
    · rw [Option.isSome_map]
      exact Text.isSome_slice?_end h

/-- The byte offset at which the tokens first differ from the source, if they do. -/
def firstDivergence (source : String) (tokens : List Token) : Option Nat :=
  (divergenceFrom? source 0 tokens).get (isSome_divergenceFrom? (Text.isOffset_zero source) tokens)

end Highlighter
