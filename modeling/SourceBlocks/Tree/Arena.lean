import SourceBlocks.Tree.Node

/-!
Trees in a row. Nodes stand one behind the other and name their parts by number.
-/

namespace SourceBlocks.Tree

variable {α β : Type}

def Shape.map (f : α → β) : Shape α → Shape β
  | .module body => .module (body.map f)
  | .functionDef id decorators args returns body isAsync =>
    .functionDef id (decorators.map f) (f args) (returns.map f) (body.map f) isAsync
  | .classDef id decorators bases body => .classDef id (decorators.map f) (bases.map f) (body.map f)
  | .returnValue value => .returnValue (value.map f)
  | .delete targets => .delete (targets.map f)
  | .assign targets value => .assign (targets.map f) (f value)
  | .augAssign target op value => .augAssign (f target) op (f value)
  | .annAssign target hint value => .annAssign (f target) (f hint) (value.map f)
  | .forLoop target iter body orelse isAsync =>
    .forLoop (f target) (f iter) (body.map f) (orelse.map f) isAsync
  | .whileLoop test body orelse => .whileLoop (f test) (body.map f) (orelse.map f)
  | .branch test body orelse => .branch (f test) (body.map f) (orelse.map f)
  | .withBlock items body isAsync => .withBlock (items.map f) (body.map f) isAsync
  | .withItem context target => .withItem (f context) (target.map f)
  | .raise exc cause => .raise (exc.map f) (cause.map f)
  | .tryBlock body handlers orelse final =>
    .tryBlock (body.map f) (handlers.map f) (orelse.map f) (final.map f)
  | .exceptHandler type id body => .exceptHandler (type.map f) id (body.map f)
  | .assertion test message => .assertion (f test) (message.map f)
  | .importNames names => .importNames (names.map f)
  | .importFrom source names level => .importFrom source (names.map f) level
  | .importAlias id asname written => .importAlias id asname written
  | .globalNames names => .globalNames names
  | .nonlocalNames names => .nonlocalNames names
  | .expr value => .expr (f value)
  | .pass => .pass
  | .breakLoop => .breakLoop
  | .continueLoop => .continueLoop
  | .print dest values newline => .print (dest.map f) (values.map f) newline
  | .exec body globals locals => .exec (f body) (globals.map f) (locals.map f)
  | .boolOp op values => .boolOp op (values.map f)
  | .namedExpr target value => .namedExpr (f target) (f value)
  | .binOp left op right => .binOp (f left) op (f right)
  | .unaryOp op operand => .unaryOp op (f operand)
  | .lambda args body => .lambda (f args) (f body)
  | .ifExp test body orelse => .ifExp (f test) (f body) (f orelse)
  | .dict entries => .dict (entries.map (Prod.map (Option.map f) f))
  | .set elts => .set (elts.map f)
  | .listComp elt generators => .listComp (f elt) (generators.map f)
  | .setComp elt generators => .setComp (f elt) (generators.map f)
  | .dictComp key value generators => .dictComp (f key) (f value) (generators.map f)
  | .generatorExp elt generators => .generatorExp (f elt) (generators.map f)
  | .comprehension target iter ifs isAsync => .comprehension (f target) (f iter) (ifs.map f) isAsync
  | .await value => .await (f value)
  | .yieldValue value => .yieldValue (value.map f)
  | .yieldFrom value => .yieldFrom (f value)
  | .compare left ops comparators => .compare (f left) ops (comparators.map f)
  | .call func args => .call (f func) (args.map f)
  | .keyword id value => .keyword id (f value)
  | .num text => .num text
  | .str value bytes written => .str value bytes written
  | .unreadableStr token => .unreadableStr token
  | .joinedStr text => .joinedStr text
  | .nameConstant value => .nameConstant value
  | .ellipsis => .ellipsis
  | .attr value id => .attr (f value) id
  | .subscript value index => .subscript (f value) (f index)
  | .slice lower upper step => .slice (lower.map f) (upper.map f) (step.map f)
  | .starred value => .starred (f value)
  | .name id => .name id
  | .list elts => .list (elts.map f)
  | .tuple elts => .tuple (elts.map f)
  | .arguments positional vararg keywordOnly kwarg =>
    .arguments (positional.map (Prod.map f (Option.map f))) vararg
      (keywordOnly.map (Prod.map f (Option.map f))) kwarg
  | .arg id hint => .arg id (hint.map f)
  | .other kind parts => .other kind (parts.map f)

inductive Stored (α : Type) where
  | dict (keys : List (Option α)) (values : List α)
  | arguments (args : List α) (vararg : Option String) (keywordOnly : List α)
      (keywordDefaults : List (Option α)) (kwarg : Option String) (defaults : List α)
  | plain (s : Shape α)

def pairLast (args defaults : List α) : List (α × Option α) :=
  (args.take (args.length - defaults.length)).map (·, none) ++
    (args.drop (args.length - defaults.length)).zip (defaults.map some)

namespace Stored

def shape : Stored α → Shape α
  | dict keys values => .dict (keys.zip values)
  | arguments args vararg keywordOnly keywordDefaults kwarg defaults =>
    .arguments (pairLast args defaults) vararg (keywordOnly.zip keywordDefaults) kwarg
  | plain s => s

end Stored

structure Entry where
  mark : Option Mark
  construct : Stored Nat

/-- Nodes one behind the other; a node's number says how many stand before it. -/
abbrev Arena := List Entry

namespace Arena

def push (e : Entry) : StateM Arena Nat := fun a => (a.length, a ++ [e])

def tree (a : Arena) : Nat → Nat → Node
  | 0, _ => .mk none .pass
  | depth + 1, i => (a[i]?).elim (.mk none .pass) fun e =>
    .mk e.mark (e.construct.shape.map (tree a depth))

end Arena

end SourceBlocks.Tree
