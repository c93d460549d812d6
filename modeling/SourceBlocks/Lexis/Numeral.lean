import SourceBlocks.Number.Digits

namespace SourceBlocks.Lexis

open Number (isDigit)

def digitRun : Bool → List Char → Nat
  | _, [] => 0
  | afterDigit, c :: r =>
    if isDigit c then digitRun true r + 1
    else if afterDigit && c = '_' then digitRun false r + 1
    else 0

def basedRun (base : Nat) : List Char → Nat
  | [] => 0
  | c :: r =>
    if (Number.digit? base c).isSome then basedRun base r + 1
    else if c = '_' then
      match r with
      | d :: _ => if (Number.digit? base d).isSome then basedRun base r + 1 else 0
      | [] => 0
    else 0

def suffixLength (letters : List Char) : List Char → Nat
  | c :: _ => if c ∈ letters then 1 else 0
  | [] => 0

def withSuffix (letters s : List Char) (n : Nat) : Nat := n + suffixLength letters (s.drop n)

def isSign (c : Char) : Bool := c = '+' || c = '-'

def exponentLength : List Char → Nat
  | e :: r =>
    if e = 'e' ∨ e = 'E' then
      let sign := match r with
        | c :: _ => if isSign c then 1 else 0
        | [] => 0
      let n := digitRun false (r.drop sign)
      if n = 0 then 0 else 1 + sign + n
    else 0
  | [] => 0

def withExponent (s : List Char) (n : Nat) : Nat := n + exponentLength (s.drop n)

def announcedBase? : List Char → Option Nat
  | '0' :: c :: _ =>
    if c = 'x' ∨ c = 'X' then some 16
    else if c = 'o' ∨ c = 'O' then some 8
    else if c = 'b' ∨ c = 'B' then some 2
    else none
  | _ => none

def basedLength (s : List Char) : Nat :=
  match announcedBase? s with
  | some base =>
    let n := basedRun base (s.drop 2)
    if n = 0 then 0 else withSuffix ['L', 'l'] s (2 + n)
  | none => 0

def decimalLength (s : List Char) : Nat :=
  let whole := digitRun false s
  let afterPoint := match s.drop whole with
    | '.' :: r => some (digitRun false r)
    | _ => none
  match afterPoint with
  | some places =>
    if whole = 0 ∧ places = 0 then 0
    else withSuffix ['L', 'l', 'J', 'j'] s (withExponent s (whole + 1 + places))
  | none =>
    if whole = 0 then 0
    else withSuffix ['L', 'l', 'J', 'j'] s (withExponent s whole)

def numeralLength (s : List Char) : Nat := max (basedLength s) (decimalLength s)

end SourceBlocks.Lexis
