import SourceBlocks.Position
import SourceBlocks.Text.FileName
import SourceBlocks.Text.Lines

/-!
Pieces of source text. A text knows where it stands: its first line begins at its start, each
later line begins at the start of a row.
-/

namespace SourceBlocks

structure Text where
  chars : List Char
  file : Option Text.FileName
  start : Position
deriving DecidableEq, Repr

namespace Text

def ofChars (s : List Char) : Text := ⟨s, none, .start⟩

def ofString (s : String) : Text := ofChars s.toList

def named (t : Text) (file : FileName) : Text := { t with file := some file }

def anchored (t : Text) (start : Position) : Text := { t with start := start }

def joined (t : Text) : String := String.ofList t.chars

def lines (t : Text) : List (List Char) := splitLines t.chars

def extent (s : List Char) : Position :=
  s.foldl (fun p c => if c = '\n' then ⟨p.row + 1, 0⟩ else ⟨p.row, p.offset + 1⟩) .start

def stop (t : Text) : Position := t.start.plus (extent t.chars)

def isEmpty (t : Text) : Bool := t.chars.isEmpty

def rowOffset (t : Text) (row : Nat) : Nat := if row = t.start.row then t.start.offset else 0

def line? (t : Text) (line : Nat) : Option (List Char) :=
  if line < t.start.line then none else t.lines[line - t.start.line]?

def rowChars (t : Text) (row : Nat) : List Char := (t.line? (row + 1)).getD []

def lineColumn (t : Text) (line : Nat) : Nat := if line = t.start.line then t.start.column else 1

/-- A place, forced into the text and measured from its start. Past the end of a line it is the end
of that line. -/
def locate (t : Text) (p : Position) : Position :=
  let q := Position.clamp t.start t.stop p
  let row := q.row - t.start.row
  ⟨row, min (q.offset - t.rowOffset q.row) ((t.lines[row]?).getD []).length⟩

/-- The lines from one place to another, both measured from the start of the lines. The first one begins at
`i` and the last one ends at `j`. -/
def cutLines (lines : List (List Char)) (i j : Position) : List (List Char) :=
  let first := (lines[i.row]?).getD []
  let last := (lines[j.row]?).getD []
  if i.row = j.row then [(first.take (max j.offset i.offset)).drop i.offset]
  else first.drop i.offset :: (lines.take j.row).drop (i.row + 1) ++ [last.take j.offset]

/-- The piece from `a` up to `b`. Places outside the text count as its ends, and nothing lies
between two places that stand the wrong way round. -/
def slice (t : Text) (a b : Position) : Text :=
  let i := t.locate a
  let j := t.locate (max b a)
  { chars := joinLines (cutLines t.lines i j), file := t.file, start := t.start.plus i }

def concat? : List Text → Option Text
  | [] => none
  | t :: ts => some { t with chars := t.chars ++ ts.flatMap chars }

def compareFiles : Option FileName → Option FileName → Ordering
  | none, none => .eq
  | none, some _ => .lt
  | some _, none => .gt
  | some a, some b => a.compare b

def compare (a b : Text) : Ordering :=
  ((compareLines a.lines b.lines).then (compareFiles a.file b.file)).then
    (Ord.compare a.start b.start)

def same (a b : Text) : Bool := compare a b == .eq

end Text

end SourceBlocks
