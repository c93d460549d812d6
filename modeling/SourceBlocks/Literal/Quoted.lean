import SourceBlocks.Number.Digits

/-!
Strings and byte strings between quotes. Single quotes are taken, unless the content has single
quotes and no double ones.
-/

namespace SourceBlocks.Literal

def chooseQuote {α : Type} [BEq α] (single double : α) (s : List α) : α :=
  if s.contains single && !s.contains double then double else single

def hexEscape (n : Nat) : List Char := '\\' :: 'x' :: Number.writePadded 16 2 n

def quoteChar (q c : Char) : List Char :=
  if c = '\\' then ['\\', '\\']
  else if c = '\n' then ['\\', 'n']
  else if c = '\r' then ['\\', 'r']
  else if c = '\t' then ['\\', 't']
  else if c = q then ['\\', c]
  else if c.toNat < 0x20 ∨ c.toNat = 0x7f then hexEscape c.toNat
  else [c]

def quote (s : List Char) : List Char :=
  let q := chooseQuote '\'' '"' s
  q :: s.flatMap (quoteChar q) ++ [q]

def quoteString (s : String) : String := String.ofList (quote s.toList)

def quoteByte (q : Char) (b : UInt8) : List Char :=
  let c := Char.ofNat b.toNat
  if c = '\\' then ['\\', '\\']
  else if c = '\n' then ['\\', 'n']
  else if c = '\r' then ['\\', 'r']
  else if c = '\t' then ['\\', 't']
  else if c = q then ['\\', c]
  else if 0x20 ≤ b.toNat ∧ b.toNat ≤ 0x7e then [c]
  else hexEscape b.toNat

def quoteBytes (bs : List UInt8) : List Char :=
  let q := chooseQuote '\'' '"' (bs.map (fun b => Char.ofNat b.toNat))
  'b' :: q :: bs.flatMap (quoteByte q) ++ [q]

end SourceBlocks.Literal
