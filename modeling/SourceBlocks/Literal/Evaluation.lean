import SourceBlocks.Literal.Numeral
import SourceBlocks.Tree.Node

namespace SourceBlocks.Literal

open Number (Double)
open SourceBlocks.Tree (Node Shape)

def malformed (n : Node) : Error := .literal s!"malformed node or string: {n.kindName}"

def byteOf (c : Char) : UInt8 := if c.toNat < 256 then c.toNat.toUInt8 else 63

def constant? : String → Option Value
  | "True" => some (.bool true)
  | "False" => some (.bool false)
  | "None" => some .nothing
  | _ => none

def negate? : Value → Option Value
  | .int n => some (.int (-n))
  | .float x => some (.float x.neg)
  | .complex re im => some (.complex re.neg im.neg)
  | _ => none

def orMalformed (n : Node) : Option Value → Except Error Value
  | some v => .ok v
  | none => .error (malformed n)

def number (n : Node) : Except Error Value := match n.shape with
  | .num text => evalNumeral text
  | _ => .error (malformed n)

def signedNumber (n : Node) : Except Error Value := match n.shape with
  | .unaryOp "+" operand => number operand
  | .unaryOp "-" operand => do
    let v ← number operand
    orMalformed n (negate? v)
  | _ => number n

def complexNumber (n left right : Node) (isDifference : Bool) : Except Error Value := do
  let re ← match ← signedNumber left with
    | .int k => pure (Double.ofInt k)
    | .float x => pure x
    | _ => .error (malformed n)
  match ← number right with
  | .complex _ im => pure (.complex re (if isDifference then im.neg else im))
  | _ => .error (malformed n)

theorem mem_children_of_mem_entries {n k v : Node} {entries : List (Option Node × Node)}
    {e : Option Node × Node} (h : n.shape = .dict entries) (he : e ∈ entries)
    (hk : e = (some k, v)) : k ∈ n.children ∧ v ∈ n.children := by
  subst hk
  simp only [Node.children, h, Shape.children, List.mem_flatMap]
  exact ⟨⟨_, he, by simp⟩, ⟨_, he, by simp⟩⟩

def eval (n : Node) : Except Error Value :=
  match _h : n.shape with
  | .str s false _ => .ok (.str s)
  | .str s true _ => .ok (.bytes (s.toList.map byteOf))
  | .num text => evalNumeral text
  | .nameConstant id => orMalformed n (constant? id)
  | .tuple elts => do
    let vs ← elts.attach.mapM (fun c => eval c.1)
    pure (.tuple vs)
  | .list elts => do
    let vs ← elts.attach.mapM (fun c => eval c.1)
    pure (.list vs)
  | .set elts => do
    let vs ← elts.attach.mapM (fun c => eval c.1)
    pure (.set vs)
  | .dict entries => do
    let es ← entries.attach.mapM (fun e => match _he : e.1 with
      | (none, _) => .error (malformed n)
      | (some k, v) => do
        let key ← eval k
        let value ← eval v
        pure (key, value))
    pure (.dict es)
  | .unaryOp _ _ => signedNumber n
  | .binOp left "+" right => complexNumber n left right false
  | .binOp left "-" right => complexNumber n left right true
  | _ => .error (malformed n)
termination_by sizeOf n
decreasing_by
  · exact Node.sizeOf_lt_of_mem_children (by simp [Node.children, _h, Shape.children,
      Shape.fieldNodes, Shape.fields, Tree.Field.nodes, c.2])
  · exact Node.sizeOf_lt_of_mem_children (by simp [Node.children, _h, Shape.children,
      Shape.fieldNodes, Shape.fields, Tree.Field.nodes, c.2])
  · exact Node.sizeOf_lt_of_mem_children (by simp [Node.children, _h, Shape.children,
      Shape.fieldNodes, Shape.fields, Tree.Field.nodes, c.2])
  · exact Node.sizeOf_lt_of_mem_children (mem_children_of_mem_entries _h e.2 _he).1
  · exact Node.sizeOf_lt_of_mem_children (mem_children_of_mem_entries _h e.2 _he).2

end SourceBlocks.Literal
