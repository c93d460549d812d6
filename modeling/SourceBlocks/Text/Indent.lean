import SourceBlocks.Text.Lines

namespace SourceBlocks.Text

def isMarginChar (c : Char) : Bool := c = ' ' || c = '\t'

def indentOf (line : List Char) : List Char := line.takeWhile isMarginChar

def isBare (line : List Char) : Bool := line.all isMarginChar

def sharedStart : List Char → List Char → List Char
  | c :: r, d :: s => if c = d then c :: sharedStart r s else []
  | _, _ => []

def commonIndent (lines : List (List Char)) : List Char :=
  match (lines.filter (fun l => !isBare l)).map indentOf with
  | [] => []
  | i :: is => is.foldl sharedStart i

def cutMargin (margin line : List Char) : List Char :=
  if margin.isPrefixOf line then line.drop margin.length else []

structure Dedented where
  chars : List Char
  margin : List Char
deriving DecidableEq, Repr

def dedent (lines : List (List Char)) : Dedented :=
  let margin := commonIndent lines
  if margin.isEmpty then ⟨joinLines lines, []⟩
  else ⟨joinLines (lines.map (cutMargin margin)), margin⟩

end SourceBlocks.Text
