namespace SourceBlocks.Number

def digit? (base : Nat) (c : Char) : Option Nat :=
  let v :=
    if '0' ≤ c ∧ c ≤ '9' then some (c.toNat - '0'.toNat)
    else if 'a' ≤ c ∧ c ≤ 'f' then some (c.toNat - 'a'.toNat + 10)
    else if 'A' ≤ c ∧ c ≤ 'F' then some (c.toNat - 'A'.toNat + 10)
    else none
  v.filter (· < base)

def readFrom? (base : Nat) : Nat → List Char → Option Nat
  | n, [] => some n
  | n, c :: r => match digit? base c with
    | some d => readFrom? base (n * base + d) r
    | none => none

def read? (base : Nat) (s : List Char) : Option Nat :=
  if s.isEmpty then none else readFrom? base 0 s

def readPositive? (base : Nat) : List Char → Option Nat
  | '+' :: r => read? base r
  | s => read? base s

def readSigned? (base : Nat) : List Char → Option Int
  | '+' :: r => (read? base r).map Int.ofNat
  | '-' :: r => (read? base r).map (fun n => -Int.ofNat n)
  | s => (read? base s).map Int.ofNat

def isDigit (c : Char) : Bool := '0' ≤ c && c ≤ '9'

def isHexDigit (c : Char) : Bool := (digit? 16 c).isSome

def write (base n : Nat) : List Char := Nat.toDigits base n

def writePadded (base width n : Nat) : List Char :=
  let s := write base n
  List.replicate (width - s.length) '0' ++ s

end SourceBlocks.Number
