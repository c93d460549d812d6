import SourceBlocks.Number.Digits

namespace SourceBlocks.Literal

def charOfCode (n : Nat) : Char := if n.isValidChar then Char.ofNat n else Char.ofNat 0xfffd

def letterEscape? (e : Char) : Option Char :=
  match e with
  | '\\' => some '\\'
  | '\'' => some '\''
  | '"' => some '"'
  | 'a' => some (Char.ofNat 7)
  | 'b' => some (Char.ofNat 8)
  | 'f' => some (Char.ofNat 12)
  | 'n' => some '\n'
  | 'r' => some '\r'
  | 't' => some '\t'
  | 'v' => some (Char.ofNat 11)
  | _ => none

def isOctalDigit (c : Char) : Bool := (Number.digit? 8 c).isSome

def codeOf (base : Nat) (ds : List Char) : Nat := (Number.readFrom? base 0 ds).getD 0

def hexWidth? (bytes : Bool) (e : Char) : Option Nat :=
  if e = 'x' then some 2
  else if bytes then none
  else if e = 'u' then some 4
  else if e = 'U' then some 8
  else none

/-- What a backslash and the character `e` stand for when `r` follows, and what is left of `r`. An
escape of no known form stands for itself. -/
def escape (bytes : Bool) (e : Char) (r : List Char) : List Char × List Char :=
  if e = '\n' then ([], r)
  else match letterEscape? e with
    | some c => ([c], r)
    | none =>
      if isOctalDigit e then
        let ds := (r.take 2).takeWhile isOctalDigit
        ([charOfCode (codeOf 8 (e :: ds))], r.drop ds.length)
      else match hexWidth? bytes e with
        | some w =>
          if w ≤ r.length ∧ (r.take w).all Number.isHexDigit then
            ([charOfCode (codeOf 16 (r.take w))], r.drop w)
          else (['\\', e], r)
        | none => (['\\', e], r)

theorem escape_length (bytes : Bool) (e : Char) (r : List Char) :
    (escape bytes e r).2.length ≤ r.length := by
  simp only [escape]
  repeat' split
  all_goals simp

def unescape (bytes : Bool) (s : List Char) : List Char :=
  match s with
  | [] => []
  | c :: r =>
    if c = '\\' then
      match r with
      | [] => ['\\']
      | e :: r =>
        have := escape_length bytes e r
        (escape bytes e r).1 ++ unescape bytes (escape bytes e r).2
    else c :: unescape bytes r
termination_by s.length

end SourceBlocks.Literal
