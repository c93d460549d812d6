import SourceBlocks.Grammar.Phrase
import SourceBlocks.Lexis.StringBody
import SourceBlocks.Literal.Token
import SourceBlocks.Text.Blank

/-!
Trees as what rules build. Brackets leave no trace in them, chains of one operator are one construct,
and parameters are sorted by how they can be given.
-/

namespace SourceBlocks.Grammar

open Lexis
open SourceBlocks.Tree (Extent Node Shape)

def Piece.lead? (p : Piece) : Option Nat :=
  if p.start.row = p.stop.row then none else some p.stop.row

def leadOf? (ps : List Piece) : Option Nat :=
  let isPlain (p : Piece) : Bool := match Literal.decode p.text with
    | .ok d => !d.formatted
    | .error _ => false
  if ps.all isPlain then (ps.head?).bind Piece.lead? else none

def isBackQuoted (p : Piece) : Bool := startsWithChar '\x60' p.text

def stringShape (ps : List Piece) (text : List Char) (written : Extent) : Shape Node :=
  if ps.any isBackQuoted then .other "repr" []
  else match ps.find? (fun p => (Literal.decode p.text).toOption.isNone) with
    | some p => .unreadableStr (String.ofList p.text)
    | none =>
      let ds := ps.filterMap (fun p => (Literal.decode p.text).toOption)
      if ds.any (·.formatted) then .joinedStr (String.ofList text)
      else .str (String.ofList (ds.flatMap (·.value))) ((ds.head?.map (·.bytes)).getD false) written

def chainOperands (op : String) (p : Phrase Node) : List Node :=
  match p.grouped, p.node.shape with
  | false, .boolOp o values => if o = op then values else [p.node]
  | _, _ => [p.node]

def splitName (p : Phrase Node) : Node × Option Node :=
  match p.aliased, p.node.shape with
  | some _, .other _ [value, id] => (value, some id)
  | _, _ => (p.node, none)

def nameBehindStars (written : List Char) : String :=
  String.ofList (Text.trim (written.dropWhile (· = '*')))

namespace Parameter

def positional : List (Parameter Node) → List (Node × Option Node)
  | [] => []
  | named arg default :: ps => (arg, default) :: positional ps
  | rest _ _ :: _ => []
  | keywordMark :: _ => []
  | _ :: ps => positional ps

def keywordOnly (behind : Bool) : List (Parameter Node) → List (Node × Option Node)
  | [] => []
  | named arg default :: ps =>
    if behind then (arg, default) :: keywordOnly behind ps else keywordOnly behind ps
  | rest _ _ :: ps => keywordOnly true ps
  | keywordMark :: ps => keywordOnly true ps
  | _ :: ps => keywordOnly behind ps

def restName? : Parameter Node → Option String
  | rest written _ => some (nameBehindStars written)
  | _ => none

def optionsName? : Parameter Node → Option String
  | options written _ => some (nameBehindStars written)
  | _ => none

def shape (ps : List (Parameter Node)) : Shape Node :=
  .arguments (positional ps) (ps.filterMap restName?).getLast? (keywordOnly false ps)
    (ps.filterMap optionsName?).getLast?

end Parameter

def headOf (n : Node) : Head := match n.shape with
  | .name _ => .name
  | .attr _ _ => .part
  | .subscript _ _ => .part
  | .call _ _ => .call
  | _ => .other

instance : Builder Node where
  node onset shape := .mk onset.mark shape
  string start text ps := .mk (some (markOf start (leadOf? ps)))
    (stringShape ps text ⟨start, (ps.getLast?.map Piece.stop).getD start⟩)
  group _ n := n
  head := headOf
  fill _ n := n
  loose onset ns := .mk onset.mark (.tuple ns)
  subscripts n ns := .mk n.mark (.tuple (n :: ns))
  operands := chainOperands
  unalias := splitName
  aliasTarget _ n := n
  soleArgument n := [n]
  parameters ps := .mk none (Parameter.shape ps)
  imported start written asname :=
    .mk none (.importAlias (String.ofList (Text.squash written)) asname start)
  block ns := ns
  clause _ ns := ns
  furtherBranch start test body orelse := [.mk (some (.known start)) (.branch test body orelse)]
  dropping n _ := n

namespace Abstract

variable {start : Position} {n : Node} {ns : List Node}

@[simp] theorem node_eq (onset : Onset) (shape : Shape Node) :
    Builder.node onset shape = Node.mk onset.mark shape := rfl

@[simp] theorem opening_eq (p : Phrase Node) (shape : Shape Node) :
    p.opening shape = Node.mk (some p.mark) shape := rfl

@[simp] theorem string_eq (text : List Char) (ps : List Piece) : Builder.string start text ps =
    Node.mk (some (markOf start (leadOf? ps)))
      (stringShape ps text ⟨start, (ps.getLast?.map Piece.stop).getD start⟩) := rfl

@[simp] theorem group_eq : Builder.group start n = n := rfl

@[simp] theorem head_eq : Builder.head n = headOf n := rfl

@[simp] theorem fill_eq (role : Role) : Builder.fill role n = n := rfl

@[simp] theorem loose_eq (onset : Onset) :
    Builder.loose onset ns = Node.mk onset.mark (.tuple ns) := rfl

@[simp] theorem subscripts_eq : Builder.subscripts n ns = Node.mk n.mark (.tuple (n :: ns)) := rfl

@[simp] theorem operands_eq (op : String) (p : Phrase Node) :
    Builder.operands op p = chainOperands op p :=
  rfl

@[simp] theorem unalias_eq (p : Phrase Node) : Builder.unalias p = splitName p := rfl

@[simp] theorem aliasTarget_eq (text : List Char) : Builder.aliasTarget text n = n := rfl

@[simp] theorem soleArgument_eq : Builder.soleArgument n = [n] := rfl

@[simp] theorem parameters_eq (ps : List (Parameter Node)) :
    Builder.parameters ps = unmarked (Parameter.shape ps) := rfl

@[simp] theorem imported_eq (written : List Char) (asname : Option String) :
    Builder.imported start written asname =
      (unmarked (.importAlias (String.ofList (Text.squash written)) asname start) : Node) := rfl

@[simp] theorem block_eq : Builder.block ns = ns := rfl

@[simp] theorem clause_eq (w : String) : Builder.clause w ns = ns := rfl

@[simp] theorem furtherBranch_eq (body : List Node) :
    Builder.furtherBranch start n body ns = [marked start (.branch n body ns)] := rfl

@[simp] theorem dropping_eq : Builder.dropping n ns = n := rfl

end Abstract

end SourceBlocks.Grammar
