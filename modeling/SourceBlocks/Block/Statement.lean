import SourceBlocks.Block.Describe
import SourceBlocks.Literal.Evaluation
import SourceBlocks.Split.Chunk

/-!
Statements: blocks of one top-level node, or of comments and blank lines only. The statements of a
block follow one another without a gap.
-/

namespace SourceBlocks

open SourceBlocks.Tree (Node Shape)

structure Statement where
  block : Block

namespace Block

def spanOf (r : Root) : Except Error Split.Span := match r.placed.start with
  | some start => .ok ⟨start, r.placed.stop⟩
  | none => .error (.internal s!"statement has no position: {r.node.dump}")

def ofChunk (roots : List Root) (features : Features) (c : Split.Chunk) : Statement :=
  ⟨carved c.text (c.node.bind (fun i => roots[i]?)).toList features true⟩

def statements (b : Block) : Except Error (List Statement) :=
  if b.isSingle then .ok [⟨b⟩]
  else do
    let roots ← b.body
    let spans ← roots.mapM spanOf
    let chunks ← (Split.chunks b.text spans).mapError (fun f => .internal f.message)
    match chunks with
    | [_] => pure [⟨{ b with isSingle := true }⟩]
    | _ => do
      let f ← b.features
      pure (chunks.map (ofChunk roots f))

end Block

namespace Statement

def text (s : Statement) : Text := s.block.text

def describe (s : Statement) : String := s!"PythonStatement({s.block.details})"

def root? (s : Statement) : Except Error (Option Root) := do
  match ← s.block.body with
  | [] => pure none
  | [r] => pure (some r)
  | _ => .error (.internal "More than one AST node in block")

def nodeIs (test : Node → Bool) (s : Statement) : Except Error Bool := do
  let r ← s.root?
  pure (r.any (fun r => test r.node))

def isString (n : Node) : Bool := match n.shape with
  | .str _ _ _ => true
  | .expr v => match v.shape with
    | .str _ _ _ => true
    | _ => false
  | _ => false

def isImportNode (n : Node) : Bool := match n.shape with
  | .importNames _ => true
  | .importFrom _ _ _ => true
  | _ => false

def isAssignNode (n : Node) : Bool := match n.shape with
  | .assign [_] _ => true
  | _ => false

def isComment (s : Statement) : Except Error Bool := do
  let r ← s.root?
  pure r.isNone

def isCommentOrString (s : Statement) : Except Error Bool := do
  let r ← s.root?
  pure (r.all (fun r => isString r.node))

def isStringLiteral : Statement → Except Error Bool := nodeIs isString

def isImport : Statement → Except Error Bool := nodeIs isImportNode

def isAssignment : Statement → Except Error Bool := nodeIs isAssignNode

def assignedName? (n : Node) : Option (String × Node) := match n.shape with
  | .assign [target] value => match target.shape with
    | .name id => some (id, value)
    | _ => none
  | _ => none

def assignment (s : Statement) : Except Error (String × Literal.Value) := do
  let r ← s.root?
  match r.bind (fun r => assignedName? r.node) with
  | some (id, value) => do
    let v ← Literal.eval value
    pure (id, v)
  | none =>
    .error (.usage s!"Statement is not an assignment to a single name: {s.describe}")

inductive Kind where
  | imports
  | comment
  | docstring
  | code
deriving DecidableEq, Repr

def Kind.name : Kind → String
  | .imports => "import"
  | .comment => "comment"
  | .docstring => "docstring"
  | .code => "code"

def kind (s : Statement) : Except Error Kind := do
  if ← s.isComment then pure .comment
  else if ← s.isImport then pure .imports
  else if ← s.isStringLiteral then pure .docstring
  else pure .code

end Statement

end SourceBlocks
