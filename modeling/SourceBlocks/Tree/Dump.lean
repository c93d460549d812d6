import SourceBlocks.Literal.Quoted
import SourceBlocks.Tree.Node

namespace SourceBlocks.Tree

open Literal (quoteString)

def separated : List String → String
  | [] => ""
  | [s] => s
  | s :: t :: r => s ++ ", " ++ separated (t :: r)

def quoteOr (s : Option String) : String := (s.map quoteString).getD "None"

namespace Shape

variable {α : Type}

def summary? : Shape α → Option String
  | functionDef id .. => some s!"name={quoteString id}"
  | classDef id .. => some s!"name={quoteString id}"
  | augAssign _ op _ => some s!"op={quoteString op}"
  | boolOp op _ => some s!"op={quoteString op}"
  | binOp _ op _ => some s!"op={quoteString op}"
  | unaryOp op _ => some s!"op={quoteString op}"
  | compare _ ops _ => some s!"ops=[{separated (ops.map quoteString)}]"
  | importFrom source _ level => some s!"module={quoteOr source}, level={level}"
  | importAlias id none _ => some s!"name={quoteString id}"
  | importAlias id (some asname) _ =>
    some s!"name={quoteString id}, asname={quoteString asname}"
  | globalNames names => some s!"names=[{separated (names.map quoteString)}]"
  | nonlocalNames names => some s!"names=[{separated (names.map quoteString)}]"
  | exceptHandler _ (some id) _ => some s!"name={quoteString id}"
  | print _ _ newline => some (if newline then "nl=True" else "nl=False")
  | keyword id _ => some s!"arg={quoteOr id}"
  | num text => some s!"n={text}"
  | str value isBytes _ => some ((if isBytes then "s=b" else "s=") ++ quoteString value)
  | joinedStr text => some s!"text={quoteString text}"
  | nameConstant value => some s!"value={value}"
  | attr _ id => some s!"attr={quoteString id}"
  | name id => some s!"id={quoteString id}"
  | arguments _ none _ none => none
  | arguments _ vararg _ kwarg => some s!"vararg={quoteOr vararg}, kwarg={quoteOr kwarg}"
  | arg id _ => some s!"arg={quoteString id}"
  | _ => none

end Shape

namespace Node

def dump (n : Node) : String :=
  n.kindName ++ "(" ++
    separated (n.shape.summary?.toList ++ n.fieldNodes.attach.map (fun c => dump c.1)) ++ ")"
termination_by sizeOf n
decreasing_by exact sizeOf_lt_of_mem_fieldNodes c.2

end Node

end SourceBlocks.Tree
