import SourceBlocks.Text.Basic

namespace SourceBlocks.Placement

structure QuotePlace where
  quote : Char
  place : Position
deriving DecidableEq, Repr

def isQuote (c : Char) : Bool := c = '"' || c = '\''

def isLiteralLetter (c : Char) : Bool := c ∈ ['b', 'B', 'r', 'R', 'u', 'U']

/-- The quotes in a row with their indices, each taken together with the letters before it.
`index` counts the characters read, of which the last `letters` are letters of a literal. -/
def openingsFrom (index letters : Nat) : List Char → List (Char × Nat)
  | [] => []
  | c :: r =>
    if isQuote c then (c, index - letters) :: openingsFrom (index + 1) 0 r
    else openingsFrom (index + 1) (if isLiteralLetter c then letters + 1 else 0) r

def openings (row : List Char) : List (Char × Nat) := openingsFrom 0 0 row

def closingsFrom (index : Nat) : List Char → List (Char × Nat)
  | [] => []
  | c :: r =>
    if isQuote c then (c, index + 1) :: closingsFrom (index + 1) r else closingsFrom (index + 1) r

def closings (row : List Char) : List (Char × Nat) := closingsFrom 0 row

def placed (t : Text) (row : Nat) (qs : List (Char × Nat)) : List QuotePlace :=
  qs.map (fun q => ⟨q.1, ⟨row, t.rowOffset row + q.2⟩⟩)

def rowsFrom (first last : Nat) : List Nat := List.range' first (last + 1 - first)

def openPlaces (t : Text) (floor : Position) (last : Nat) : List QuotePlace :=
  ((rowsFrom floor.row last).flatMap (fun row => placed t row (openings (t.rowChars row)))).filter
    (fun q => floor ≤ q.place)

def closePlaces (t : Text) (row : Nat) : List QuotePlace := placed t row (closings (t.rowChars row))

end SourceBlocks.Placement
