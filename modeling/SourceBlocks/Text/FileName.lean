import SourceBlocks.Text.Lines

/-!
Names of files, compared by their parts. Repeated slashes and dots between them do not count: `a//b`
and `a/./b` name the same file as `a/b`.
-/

namespace SourceBlocks.Text

inductive PathPart where
  | root
  | current
  | parent
  | named (name : List Char)
deriving DecidableEq, Repr

namespace PathPart

def rank : PathPart → Nat
  | root => 0
  | current => 1
  | parent => 2
  | named _ => 3

def compare : PathPart → PathPart → Ordering
  | named a, named b => compareChars a b
  | a, b => Ord.compare a.rank b.rank

def compareAll : List PathPart → List PathPart → Ordering
  | [], [] => .eq
  | [], _ :: _ => .lt
  | _ :: _, [] => .gt
  | a :: r, b :: s => (compare a b).then (compareAll r s)

end PathPart

structure FileName where
  written : String
deriving DecidableEq, Repr

namespace FileName

def part? (name : List Char) : Option PathPart :=
  if name = [] ∨ name = ['.'] then none
  else if name = ['.', '.'] then some .parent
  else some (.named name)

def parts (f : FileName) : List PathPart :=
  let names := splitAt '/' f.written.toList
  let lead := match names with
    | [] :: _ :: _ => [PathPart.root]
    | ['.'] :: _ => [PathPart.current]
    | _ => []
  lead ++ names.filterMap part?

def compare (a b : FileName) : Ordering := PathPart.compareAll a.parts b.parts

def fingerprint (f : FileName) : List PathPart := f.parts.filter (· ≠ .root)

end FileName

end SourceBlocks.Text
