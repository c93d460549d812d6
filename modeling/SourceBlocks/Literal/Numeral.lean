import SourceBlocks.Error
import SourceBlocks.Literal.Value
import SourceBlocks.Text.Case

namespace SourceBlocks.Literal

def integerParts? (s : List Char) : Option (Nat × List Char) :=
  match s with
  | '0' :: 'x' :: r => some (16, r)
  | '0' :: 'o' :: r => some (8, r)
  | '0' :: 'b' :: r => some (2, r)
  | _ =>
    if s.isEmpty || !s.all Number.isDigit then none
    else match s with
      | '0' :: d :: r => some (8, d :: r)
      | _ => some (10, s)

def inRange (n : Int) : Bool := decide (-Int.pow 2 127 ≤ n) && decide (n < Int.pow 2 127)

def dropLast? (c : Char) (s : List Char) : Option (List Char) :=
  if s.getLast? = some c then some s.dropLast else none

def numeral? (text : List Char) : Option Value :=
  let s := (text.filter (· ≠ '_')).map Text.lowercase
  match dropLast? 'j' s with
  | some r => (Number.Double.read? r).map (Value.complex Number.Double.zero)
  | none =>
    let s := (dropLast? 'l' s).getD s
    match integerParts? s with
    | some (base, ds) => ((Number.readSigned? base ds).filter inRange).map Value.int
    | none => (Number.Double.read? s).map Value.float

def evalNumeral (text : String) : Except Error Value :=
  match numeral? text.toList with
  | some v => .ok v
  | none => .error (.literal s!"invalid numeric literal: {text}")

end SourceBlocks.Literal
