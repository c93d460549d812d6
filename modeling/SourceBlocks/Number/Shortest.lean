import SourceBlocks.Number.Digits
import SourceBlocks.Number.Double

/-!
Decimal numbers for binary ones: the fewest digits that are read back as the same number, and among
those the nearest.
-/

namespace SourceBlocks.Number

structure Decimal where
  digits : Nat
  exponent : Int
deriving DecidableEq, Repr

namespace Decimal

def normalize : Nat → Decimal → Decimal
  | 0, d => d
  | fuel + 1, d =>
    if d.digits ≠ 0 ∧ d.digits % 10 = 0 then normalize fuel ⟨d.digits / 10, d.exponent + 1⟩ else d

def digitCount (d : Decimal) : Nat := (write 10 d.digits).length

def leading (d : Decimal) : Int := d.exponent + d.digitCount - 1

def positional (d : Decimal) : List Char :=
  let ds := write 10 d.digits
  if 0 ≤ d.exponent then ds ++ List.replicate d.exponent.toNat '0'
  else
    let places := (-d.exponent).toNat
    let ds := List.replicate (places + 1 - ds.length) '0' ++ ds
    ds.take (ds.length - places) ++ '.' :: ds.drop (ds.length - places)

def mantissa (d : Decimal) : List Char :=
  match write 10 d.digits with
  | [] => []
  | [c] => [c]
  | c :: r => c :: '.' :: r

end Decimal

namespace Double

/-- The reals that are read as a given finite number reach from `low` to `high`, in units of
`2 ^ unit`; the number itself is `mid` units. The ends belong to it if `closed`. -/
structure Interval where
  low : Nat
  mid : Nat
  high : Nat
  unit : Int
  closed : Bool
deriving Repr

def interval (x : Double) : Interval :=
  let m := x.significand
  let narrow := x.fractionField = 0 && 1 < x.exponentField
  { low := if narrow then 4 * m - 1 else 4 * m - 2
    mid := 4 * m
    high := 4 * m + 2
    unit := x.scale - 2
    closed := m % 2 = 0 }

def overGrid (units : Nat) (unit k : Int) : Nat × Nat :=
  let num := if 0 ≤ unit then units * Nat.pow 2 unit.toNat else units
  let den := if 0 ≤ unit then 1 else Nat.pow 2 (-unit).toNat
  if 0 ≤ k then (num, den * Nat.pow 10 k.toNat) else (num * Nat.pow 10 (-k).toNat, den)

def Interval.holds (i : Interval) (k : Int) (n : Nat) : Bool :=
  let (lowNum, lowDen) := overGrid i.low i.unit k
  let (highNum, highDen) := overGrid i.high i.unit k
  if i.closed then decide (lowNum ≤ n * lowDen) && decide (n * highDen ≤ highNum)
  else decide (lowNum < n * lowDen) && decide (n * highDen < highNum)

/-- The grid point next to the number, if one of its two neighbours on the grid `10 ^ k` is read
back. A number half way between them takes the upper one. -/
def Interval.onGrid? (i : Interval) (k : Int) : Option Nat :=
  let (num, den) := overGrid i.mid i.unit k
  let below := num / den
  let upper := decide (den ≤ 2 * (num % den))
  match i.holds k below, i.holds k (below + 1) with
  | true, true => some (if upper then below + 1 else below)
  | true, false => some below
  | false, true => some (below + 1)
  | false, false => none

def leadingExponent (num den : Nat) : Int :=
  if den ≤ num then ((write 10 (num / den)).length : Int) - 1
  else
    let k := (write 10 (den / num)).length
    if den ≤ num * Nat.pow 10 (k - 1) then -((k : Int) - 1) else -(k : Int)

def Interval.search (i : Interval) (leading : Int) : Nat → Nat → Decimal
  | 0, _ => ⟨i.mid, 0⟩
  | fuel + 1, count =>
    let k := leading - count + 1
    match i.onGrid? k with
    | some n => Decimal.normalize 20 ⟨n, k⟩
    | none => i.search leading fuel (count + 1)

def shortest (x : Double) : Decimal :=
  if x.isZero then ⟨0, 0⟩
  else
    let i := x.interval
    let (num, den) := overGrid i.mid i.unit 0
    i.search (leadingExponent num den) 20 1

def natural? (x : Double) : Option Nat :=
  let m := x.significand
  if 0 ≤ x.scale then some (m * Nat.pow 2 x.scale.toNat)
  else if m % Nat.pow 2 (-x.scale).toNat = 0 then some (m / Nat.pow 2 (-x.scale).toNat)
  else none

end Double

end SourceBlocks.Number
