import SourceBlocks.Position

namespace SourceBlocks.Lexis

structure Cursor where
  rest : List Char
  index : Nat
  place : Position
  margin : Nat
  indents : List Nat
  inFields : Bool
  total : Nat
deriving Repr

namespace Cursor

def ofSource (margin : Nat) (source : List Char) : Cursor where
  rest := source
  index := 0
  place := ⟨0, margin⟩
  margin := margin
  indents := []
  inFields := false
  total := source.length

def indent (c : Cursor) : Nat := c.indents.headD 0

def step (c : Cursor) : Cursor :=
  match c.rest with
  | [] => c
  | x :: r =>
    { c with
      rest := r
      index := c.index + 1
      place := if x = '\n' then ⟨c.place.row + 1, c.margin⟩ else ⟨c.place.row, c.place.offset + 1⟩ }

def skip (c : Cursor) : Nat → Cursor
  | 0 => c
  | n + 1 => c.step.skip n

def textTo (c : Cursor) (index : Nat) : List Char := c.rest.take (index - c.index)

end Cursor

end SourceBlocks.Lexis
