namespace SourceBlocks.Lexis

structure Quote where
  mark : Char
  triple : Bool
  raw : Bool
  bytes : Bool
  fields : Bool
deriving DecidableEq, Repr

namespace Quote

def isMark (c : Char) : Bool := c = '"' || c = '\'' || c = '\x60'

def opening? (q : Quote) (n : Nat) : List Char → Option (Quote × Nat)
  | [] => none
  | c :: r =>
    if c = 'f' ∨ c = 'F' then opening? { q with fields := true } (n + 1) r
    else if c = 'r' ∨ c = 'R' then opening? { q with raw := true } (n + 1) r
    else if c = 'b' ∨ c = 'B' then opening? { q with bytes := true } (n + 1) r
    else if c = 'u' ∨ c = 'U' then opening? q (n + 1) r
    else if c = '\x60' then some ({ q with mark := c }, n + 1)
    else if c = '"' ∨ c = '\'' then
      if [c, c].isPrefixOf r then some ({ q with mark := c, triple := true }, n + 3)
      else some ({ q with mark := c }, n + 1)
    else none

def plain : Quote := ⟨'"', false, false, false, false⟩

def atStart? (s : List Char) : Option (Quote × Nat) := opening? plain 0 s

end Quote

end SourceBlocks.Lexis
