import SourceBlocks.Lexis.Letters

namespace SourceBlocks.Lexis

def isAsciiLetter (c : Char) : Bool := ('a' ≤ c && c ≤ 'z') || ('A' ≤ c && c ≤ 'Z')

def isWordStart (c : Char) : Bool :=
  if c.toNat < 0x80 then isAsciiLetter c || c = '_' else inRanges startRanges c.toNat

def isWordPart (c : Char) : Bool :=
  if c.toNat < 0x80 then isAsciiLetter c || c = '_' || ('0' ≤ c && c ≤ '9')
  else inRanges startRanges c.toNat || inRanges continueRanges c.toNat

def word : List Char → List Char
  | [] => []
  | c :: r => if isWordStart c then c :: r.takeWhile isWordPart else []

end SourceBlocks.Lexis
