/-! Binary floating-point numbers with 53 significant bits, without sign. Every
operation rounds the exact result to the nearest number, a tie to the even one. -/

namespace Highlighter.Number

/-- `mantissa * 2 ^ exponent`, with at most 53 bits and an exponent from -1074 on. -/
structure Binary where
  mantissa : Nat
  exponent : Int
  deriving DecidableEq, Repr

/-- The nearest natural number to a quotient, a tie to the even one. -/
def divNearest (n d : Nat) : Nat :=
  let q := n / d
  let r := n % d
  if 2 * r < d || (2 * r = d && q % 2 = 0) then q else q + 1

/-- `n / d` times a power of two, as numerator and denominator. -/
def shifted (n d : Nat) (k : Int) : Nat × Nat := (n * .pow 2 k.toNat, d * .pow 2 (-k).toNat)

/-- The exponent of the greatest power of two that is not above `n / d`. -/
def floorLog2 (n d : Nat) : Int :=
  let k := (n.log2 : Int) - d.log2
  let (n, d) := shifted n d (-k)
  if n < d then k - 1 else k

namespace Binary

def zero : Binary := ⟨0, -1074⟩

/-- The number nearest to `n / d`, if it is not too large. -/
def ofRatio (n d : Nat) : Option Binary :=
  if n = 0 then some zero
  else
    let e := max (floorLog2 n d - 52) (-1074)
    let (n, d) := shifted n d (-e)
    let m := divNearest n d
    let b : Binary := if m = .pow 2 53 then ⟨.pow 2 52, e + 1⟩ else ⟨m, e⟩
    if 971 < b.exponent then none else some b

def mul (a b : Binary) : Option Binary :=
  let (n, d) := shifted (a.mantissa * b.mantissa) 1 (a.exponent + b.exponent)
  ofRatio n d

def div (a b : Binary) : Option Binary :=
  let (n, d) := shifted a.mantissa b.mantissa (a.exponent - b.exponent)
  ofRatio n d

/-- The number for a power of ten. -/
def tenTo (k : Nat) : Option Binary := ofRatio (.pow 10 k) 1

/-- Scales by a power of ten, by at most 308 decimal places in each step. The first
argument bounds the steps; four of them bring any number down to zero. -/
def scale : Nat → Binary → Int → Option Binary
  | 0, b, _ => some b
  | n + 1, b, k =>
    if k.natAbs ≤ 308 then do
      let p ← tenTo k.natAbs
      if 0 ≤ k then b.mul p else b.div p
    else if b.mantissa = 0 then some b
    else if 0 ≤ k then none
    else do scale n (← b.div (← tenTo 308)) (k + 308)

/-- The number that stands for `digits * 10 ^ k`, if it is not too large. -/
def ofDecimal (digits : Nat) (k : Int) : Option Binary := do scale 5 (← ofRatio digits 1) k

end Binary

end Highlighter.Number
