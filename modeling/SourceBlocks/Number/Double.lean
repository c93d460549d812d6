/-!
Binary floating point numbers of 64 bits, as their bits.
-/

namespace SourceBlocks.Number

structure Double where
  bits : UInt64
deriving DecidableEq, Repr, Inhabited

namespace Double

def negative (x : Double) : Bool := x.bits.toNat / Nat.pow 2 63 = 1

def exponentField (x : Double) : Nat := x.bits.toNat / Nat.pow 2 52 % Nat.pow 2 11

def fractionField (x : Double) : Nat := x.bits.toNat % Nat.pow 2 52

def isNaN (x : Double) : Bool := x.exponentField = 2047 && x.fractionField != 0

def isInfinite (x : Double) : Bool := x.exponentField = 2047 && x.fractionField = 0

def isZero (x : Double) : Bool := x.exponentField = 0 && x.fractionField = 0

def significand (x : Double) : Nat :=
  if x.exponentField = 0 then x.fractionField else Nat.pow 2 52 + x.fractionField

def scale (x : Double) : Int :=
  if x.exponentField = 0 then -1074 else (x.exponentField : Int) - 1075

def pack (negative : Bool) (exponent fraction : Nat) : Double :=
  ⟨((if negative then Nat.pow 2 63 else 0) + exponent * Nat.pow 2 52 + fraction).toUInt64⟩

def zero : Double := pack false 0 0

def infinity : Double := pack false 2047 0

def nan : Double := pack false 2047 (Nat.pow 2 51)

def neg (x : Double) : Double := pack (!x.negative) x.exponentField x.fractionField

def abs (x : Double) : Double := pack false x.exponentField x.fractionField

def roundHalfEven (num den : Nat) : Nat :=
  let q := num / den
  let r := num % den
  if 2 * r < den then q else if den < 2 * r then q + 1 else if q % 2 = 0 then q else q + 1

def inUnits (num den : Nat) (e : Int) : Nat :=
  if 0 ≤ e then roundHalfEven num (den * Nat.pow 2 e.toNat)
  else roundHalfEven (num * Nat.pow 2 (-e).toNat) den

def fills (num den : Nat) (e : Int) : Bool :=
  if 0 ≤ e then decide (Nat.pow 2 52 * (den * Nat.pow 2 e.toNat) ≤ num)
  else decide (Nat.pow 2 52 * den ≤ num * Nat.pow 2 (-e).toNat)

def ofUnits (m : Nat) (e : Int) : Double :=
  let (m, e) := if m = Nat.pow 2 53 then (Nat.pow 2 52, e + 1) else (m, e)
  if m < Nat.pow 2 52 then pack false 0 m
  else if 971 < e then infinity
  else pack false (e + 1075).toNat (m - Nat.pow 2 52)

def ofQuotient (num den : Nat) : Double :=
  if num = 0 then zero
  else
    let e : Int := (num.log2 : Int) - den.log2 - 52
    let e := if fills num den e then e else e - 1
    let e := max e (-1074)
    ofUnits (inUnits num den e) e

def ofDecimal (digits : Nat) (exponent : Int) : Double :=
  if digits = 0 then zero
  else
    let magnitude : Int := exponent + (Nat.toDigits 10 digits).length
    if 400 < magnitude then infinity
    else if magnitude < -400 then zero
    else if 0 ≤ exponent then ofQuotient (digits * Nat.pow 10 exponent.toNat) 1
    else ofQuotient digits (Nat.pow 10 (-exponent).toNat)

def ofInt (n : Int) : Double :=
  let x := ofQuotient n.natAbs 1
  if n < 0 then x.neg else x

end Double

end SourceBlocks.Number
