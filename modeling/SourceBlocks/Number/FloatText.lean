import SourceBlocks.Number.Shortest

namespace SourceBlocks.Number

/-- How a number is written: in full where the exponent of its first digit lies between `least` and
`most`, otherwise with an exponent of at least `width` digits. -/
structure FloatFormat where
  least : Int
  most : Int
  width : Nat
  integral : List Char
  notANumber : List Char
  infinite : List Char

def FloatFormat.standard : FloatFormat where
  least := -4
  most := 15
  width := 2
  integral := ['.', '0']
  notANumber := ['n', 'a', 'n']
  infinite := ['i', 'n', 'f']

namespace Double

def signOf (x : Double) : List Char := if x.negative then ['-'] else []

def writeExponent (width : Nat) (e : Int) : List Char :=
  'e' :: (if e < 0 then '-' else '+') :: writePadded 10 width e.natAbs

def write (f : FloatFormat) (x : Double) : List Char :=
  if x.isNaN then f.notANumber
  else if x.isInfinite then x.signOf ++ f.infinite
  else
    let d := x.shortest
    if x.isZero || (decide (f.least ≤ d.leading) && decide (d.leading ≤ f.most)) then
      match x.natural? with
      | some n => x.signOf ++ Number.write 10 n ++ f.integral
      | none => x.signOf ++ d.positional
    else x.signOf ++ d.mantissa ++ writeExponent f.width d.leading

end Double

structure Numeral where
  whole : List Char
  places : List Char
  exponent : Int
deriving Repr

def readExponent? : List Char → Option Int
  | [] => some 0
  | 'e' :: r => readSigned? 10 r
  | 'E' :: r => readSigned? 10 r
  | _ => none

def readNumeral? (s : List Char) : Option Numeral :=
  let whole := s.takeWhile isDigit
  let r := s.dropWhile isDigit
  let (places, r) := match r with
    | '.' :: r => (r.takeWhile isDigit, r.dropWhile isDigit)
    | r => ([], r)
  if whole.isEmpty && places.isEmpty then none
  else (readExponent? r).map (fun e => ⟨whole, places, e⟩)

namespace Double

def ofNumeral (n : Numeral) : Double :=
  ofDecimal (((n.whole ++ n.places).foldl (fun v c => v * 10 + (c.toNat - '0'.toNat)) 0))
    (n.exponent - n.places.length)

def readMagnitude? (s : List Char) : Option Double :=
  if s = "inf".toList ∨ s = "infinity".toList then some infinity
  else if s = "nan".toList then some nan
  else (readNumeral? s).map ofNumeral

def read? : List Char → Option Double
  | '-' :: r => (readMagnitude? r).map neg
  | '+' :: r => readMagnitude? r
  | s => readMagnitude? s

end Double

end SourceBlocks.Number
