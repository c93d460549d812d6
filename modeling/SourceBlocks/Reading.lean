import SourceBlocks.Grammar.Fragment
import SourceBlocks.Lowering.Statements
import SourceBlocks.ParseTree.Build
import SourceBlocks.Placement.Tree
import SourceBlocks.Text.Indent

/-!
Reading a text: the margin that all its lines share is cut off, what is left is read by the grammar,
and the tree that comes of it is lowered.
-/

namespace SourceBlocks

open SourceBlocks.Tree (Node)

structure Lowered where
  arena : Tree.Arena
  root : Nat
  margin : List Char
  features : Features

structure Reading where
  tree : Node
  margin : List Char
  features : Features

namespace Lowered

def ofText (t : Text) (features : Features) : Except Error Lowered :=
  let d := Text.dedent t.lines
  match Grammar.read d.margin.length d.chars with
  | .error p => .error (.rejectedAt "invalid syntax" (t.start.plus p))
  | .ok tree => match Lowering.module tree ⟨[], features⟩ with
    | .error f => .error (f.toError t.start)
    | .ok (root, s) => .ok ⟨s.arena, root, d.margin, s.features⟩

def reading (l : Lowered) : Reading := ⟨l.arena.tree l.arena.length l.root, l.margin, l.features⟩

end Lowered

namespace Reading

def ofText (t : Text) (features : Features) : Except Error Reading :=
  (Lowered.ofText t features).map Lowered.reading

def placeIn (r : Reading) (t : Text) : Except Error Placement.Placed :=
  (Placement.placeTree ⟨t, r.margin, Grammar.stringValue?⟩ r.tree).mapError Placement.Fault.toError

end Reading

end SourceBlocks
