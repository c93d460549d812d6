import SourceBlocks.Text.Basic

/-!
Pieces of text in numbers of 32 bits. Counts are cut to 32 bits. A sum that does not fit is a
failure, and so are places out of order and what is out of range.
-/

namespace SourceBlocks.Text

def lowWord (n : Nat) : Nat := n % UInt32.size

def word? (n : Nat) : Option Nat := if n < UInt32.size then some n else none

def stop? (t : Text) : Option Position :=
  let count := lowWord t.lines.length
  let width := lowWord (t.lines.getLast?.getD []).length
  if count ≤ 1 then do
    let column ← word? (t.start.column + width)
    pure (.ofLineColumn t.start.line column)
  else do
    let behind ← word? (t.start.line + count)
    let column ← word? (width + 1)
    pure (.ofLineColumn (behind - 1) column)

def range? {α : Type} (xs : List α) (m n : Nat) : Option (List α) :=
  if m ≤ n ∧ n ≤ xs.length then some ((xs.take n).drop m) else none

def locate? (t : Text) (p : Position) : Option Position := do
  let stop ← t.stop?
  let q := Position.clamp t.start stop p
  if t.start ≤ stop ∧ t.start.row ≤ q.row then do
    let line ← t.lines[q.row - t.start.row]?
    pure ⟨q.row - t.start.row, min (q.offset - t.rowOffset q.row) line.length⟩
  else none

def cutLines? (lines : List (List Char)) (i j : Position) : Option (List (List Char)) := do
  let first ← lines[i.row]?
  if i.row = j.row then do
    let piece ← range? first i.offset (max j.offset i.offset)
    pure [piece]
  else do
    let last ← lines[j.row]?
    let head ← range? first i.offset first.length
    let middle ← range? lines (i.row + 1) j.row
    let tail ← range? last 0 j.offset
    pure (head :: middle ++ [tail])

def slice? (t : Text) (a b : Position) : Option Text := do
  let i ← t.locate? a
  let j ← t.locate? (max b a)
  let line ← word? (t.start.line + lowWord i.row)
  let column ← word? (t.lineColumn line + lowWord i.offset)
  let lines ← cutLines? t.lines i j
  pure { chars := joinLines lines, file := t.file, start := .ofLineColumn line column }

def sliceFrom? (t : Text) (a : Position) : Option Text := do
  let stop ← t.stop?
  t.slice? a stop

end SourceBlocks.Text
