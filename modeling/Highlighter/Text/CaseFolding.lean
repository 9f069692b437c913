import Highlighter.Text.CaseTable

/-! Case variants of a character under the simple case folding of Unicode. -/

namespace Highlighter.Text

def CaseRun.covers (r : CaseRun) (n : Nat) : Bool :=
  r.first ≤ n && n ≤ r.last && (n - r.first) % r.step == 0

/-- The least code point of the case class of `n`. -/
def leastVariant (n : Nat) : Nat :=
  match caseRuns.find? fun r => r.shift ≤ n && r.covers (n - r.shift) with
  | some r => n - r.shift
  | none => n

/-- The code points that differ from `n` only in case, `n` among them. -/
def variantCodes (n : Nat) : List Nat :=
  leastVariant n :: (caseRuns.filter (·.covers (leastVariant n))).map (leastVariant n + ·.shift)

/-- A letter has its two ASCII forms; the Kelvin sign belongs to `k` and the long
s to `s`. -/
def asciiVariants (c : Char) : List Char :=
  if c.isAlpha then
    c.toUpper :: c.toLower ::
      if c.toLower = 'k' then ['\u212A'] else if c.toLower = 's' then ['\u017F'] else []
  else [c]

/-- The characters that differ from `c` only in case, `c` among them. -/
def caseVariants (c : Char) : List Char :=
  if c.toNat < 128 then asciiVariants c else (variantCodes c.toNat).map Char.ofNat

/-- The code points that have other case variants than themselves. -/
def casedCodes : List Nat :=
  let letters := (List.range 128).filter fun n => (Char.ofNat n).isAlpha
  letters ++ caseRuns.flatMap fun r =>
    let least := (List.range ((r.last - r.first) / r.step + 1)).map (r.first + r.step * ·)
    least ++ least.map (· + r.shift)

end Highlighter.Text
