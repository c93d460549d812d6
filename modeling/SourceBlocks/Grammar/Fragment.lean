import SourceBlocks.Grammar.Module
import SourceBlocks.ParseTree.Build

namespace SourceBlocks

namespace ParseTree

def literals? (t : ParseTree) : Option (List ParseTree) :=
  if t.kind = .string then some [t]
  else if t.kind = .concatenatedString then some t.named
  else none

def plainValue? (t : ParseTree) : Option (List Char) := match Literal.decode t.text with
  | .ok d => if d.formatted then none else some d.value
  | .error _ => none

def fragmentValue? (t : ParseTree) : Option (List Char) := match t.named with
  | [statement] =>
    if statement.kind = .expressionStatement then
      match statement.named with
      | [value] => do
        let pieces ← value.literals?
        let values ← pieces.mapM plainValue?
        pure values.flatten
      | _ => none
    else none
  | _ => none

end ParseTree

def Grammar.stringValue? (fragment : List Char) : Option (List Char) := match read 0 fragment with
  | .ok t => ParseTree.fragmentValue? t
  | .error _ => none

end SourceBlocks
