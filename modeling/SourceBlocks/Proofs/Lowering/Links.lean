import SourceBlocks.Grammar.Fragment
import SourceBlocks.Proofs.Lowering.Collections

/-! What is built of a source, as it is written and as it is meant. -/

namespace SourceBlocks.ParseTree

open Grammar (Builder Links Onset Phrase Role chainOperands marked splitName)
open Lower Lowering
open SourceBlocks.Dialect (demands)
open SourceBlocks.Tree (Node Shape)

inductive Arg : ParseTree → Node → Prop
  | mk {t : Option ParseTree} {n : Option Node} (start : Position) (id : String) : Option.Rel Value t n →
      Arg (marked start (.arg id t)) (marked start (.arg id n))

inductive Aliased (p : Phrase ParseTree) (p' : Phrase Node) : Prop
  | none : p.node.kind ≠ .asPattern → splitName p' = (p'.node, none) → Aliased p p'
  | some {t u : ParseTree} {n m : Node} (o : Onset) (text : List Char) : Value t n → Value u m →
      p.node = node o .asPattern [t, Builder.aliasTarget text u] → splitName p' = (n, some m) → p'.aliased = some text →
      Aliased p p'

def Spine (p : Phrase ParseTree) (p' : Phrase Node) : Prop := ∀ (op : String) (role : Role), ∃ ts,
  operands op.toList (p.node.fill role) = pure ts ∧
    List.Forall₂ (fun t n => t.depth ≤ p.node.depth ∧ Stands t n) ts (chainOperands op p')

structure Operand (p : Phrase ParseTree) (p' : Phrase Node) : Prop where
  value : Value p.node p'.node
  start : p'.start = p.start
  stop : p'.stop = p.stop
  lead : p'.lead = p.lead
  mark : p.node.mark = some p'.mark
  kind : p.node.kind ≠ .expressionList
  aliased : Aliased p p'
  spine : Spine p p'

/-- A statement that is made up of string literals, or one that could not be taken for them. -/
inductive LiteralStatement : ParseTree → Node → Prop
  | pieces (o : Onset) (start : Position) (text : List Char) (ps : List Grammar.Piece) :
      LiteralStatement (node o .expressionStatement [ofPieces start text ps])
        (.mk (some (Grammar.markOf start (Grammar.leadOf? ps))) (.expr (Builder.string start text ps)))
  | grouped {t u : ParseTree} {n : Node} : t.kind = .expressionStatement → t.named = [u] →
      u.kind = .parenthesizedExpression → LiteralStatement t n
  | other {t : ParseTree} {n : Node} : (t.kind = .expressionStatement → ∀ u, t.named = [u] → u.literals? = none) →
      (∀ m v b w, n.shape ≠ .expr (.mk m (.str v b w))) → LiteralStatement t n

structure Statement (t : ParseTree) (n : Node) : Prop where
  isNamed : t.isNamed
  kind : t.kind ≠ .block
  literal : LiteralStatement t n
  stmt : ∀ d, t.depth ≤ d → Meets (demands n) ((upTo d).stmt t) n.lower

structure Item (t : ParseTree) (n : Node) : Prop where
  isNamed : t.isNamed
  item : ∀ d, t.depth ≤ d → Meets (demands n) (withItem (upTo d) t) n.lower

structure Handler (t : ParseTree) (n : Node) : Prop where
  kind : t.kind = .exceptClause
  handler : ∀ d, t.depth ≤ d → Meets (demands n) (handler (upTo d) t) n.lower

structure Imported (t : ParseTree) (n : Node) : Prop where
  isNamed : t.isNamed
  role : t.role = none
  imported : ∃ name asname, n = .mk none (.importAlias name asname t.span.place) ∧
    importAlias t = (name, ·) <$> push none (.importAlias name asname t.span.place)

@[reducible] def links : Links ParseTree where
  shift := 0
  value := Value
  operand := Operand
  statement := Statement
  clause := Clause
  item := Item
  handler := Handler
  imported := Imported
  arg := Arg

end SourceBlocks.ParseTree
