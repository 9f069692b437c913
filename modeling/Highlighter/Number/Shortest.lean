import Highlighter.Number.Binary

/-! The shortest decimal text that reads back as a binary number. -/

namespace Highlighter.Number

/-- `digits * 10 ^ exponent`. -/
structure Decimal where
  digits : Nat
  exponent : Int
  deriving DecidableEq, Repr

/-- A power of ten as numerator and denominator. -/
def tenPower (k : Int) : Nat × Nat := (.pow 10 k.toNat, .pow 10 (-k).toNat)

/-- The ratios that round to a positive number: the lower end, the number and the
upper end over one denominator, and whether the ends belong to them. -/
structure Interval where
  low : Nat
  mid : Nat
  high : Nat
  scale : Nat
  closed : Bool

/-- The gap below a power of two is half as wide. -/
def Binary.interval (b : Binary) : Interval :=
  let narrow := b.mantissa = .pow 2 52 && -1074 < b.exponent
  let (n, d) := shifted 1 1 (b.exponent - 2)
  let m := 4 * b.mantissa
  ⟨(m - if narrow then 1 else 2) * n, m * n, (m + 2) * n, d, b.mantissa % 2 = 0⟩

def Interval.contains (i : Interval) (x : Decimal) : Bool :=
  let (n, d) := tenPower x.exponent
  let v := x.digits * n * i.scale
  if i.closed then i.low * d ≤ v && v ≤ i.high * d else i.low * d < v && v < i.high * d

/-- The number of digits before the decimal point, or minus the number of zeros
behind it. -/
def Interval.magnitude (i : Interval) : Int :=
  let guess := floorLog2 i.mid i.scale * 30103 / 100000
  let reaches (k : Int) : Bool := let (n, d) := tenPower k; n * i.scale ≤ i.mid * d
  if reaches (guess + 1) then guess + 2 else if reaches guess then guess + 1 else guess

/-- The decimal with at most `n` digits that lies in the interval; of two the nearer
one, and of two that are equally near the even one. -/
def Interval.decimal? (i : Interval) (n : Nat) : Option Decimal :=
  let k := i.magnitude - n
  let (p, q) := tenPower k
  let below := i.mid * q / (i.scale * p)
  let down : Decimal := ⟨below, k⟩
  let up : Decimal := ⟨below + 1, k⟩
  match i.contains down, i.contains up with
  | true, true => some (if divNearest (i.mid * q) (i.scale * p) = below then down else up)
  | true, false => some down
  | false, true => some up
  | false, false => none

/-- The decimal with the fewest digits. Seventeen are always enough. -/
def Binary.shortest (b : Binary) : Decimal :=
  ((List.range 17).findSome? fun n => b.interval.decimal? (n + 1)).getD ⟨0, 0⟩

/-- Digits without zeros at the end. -/
def trimZeros : List Char → List Char := fun ds => (ds.reverse.dropWhile (· == '0')).reverse

/-- Positional from five zeros behind the point up to 16 digits before it, and with
an exponent beyond that; a point or an exponent is always written. -/
def Decimal.text (x : Decimal) : List Char :=
  let all := Nat.toDigits 10 x.digits
  let ds := trimZeros all
  let k := x.exponent + (all.length - ds.length : Nat)
  let point := k + ds.length
  let zeros (n : Int) : List Char := List.replicate n.toNat '0'
  if 0 ≤ k && point ≤ 16 then ds ++ zeros k ++ ".0".toList
  else if 0 < point && point ≤ 16 then ds.take point.toNat ++ '.' :: ds.drop point.toNat
  else if -5 < point && point ≤ 0 then "0.".toList ++ zeros (-point) ++ ds
  else
    let tail := match ds.drop 1 with
      | [] => []
      | ds => '.' :: ds
    ds.take 1 ++ tail ++ 'e' :: (toString (point - 1)).toList

/-- The text of a number. -/
def Binary.text (b : Binary) : String :=
  if b.mantissa = 0 then "0.0" else String.ofList b.shortest.text

end Highlighter.Number
