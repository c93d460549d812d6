import Mathlib.Tactic.Common
import SourceBlocks.Proofs.Text.Extent
import SourceBlocks.Tree.Node

namespace SourceBlocks

namespace Position

variable (w : Nat) (p q : Position)

def inset : Position := ⟨p.row, p.offset + w⟩

lemma inset_lt_inset_iff : p.inset w < q.inset w ↔ p < q := by
  simp only [lt_def, inset]
  omega

lemma inset_le_inset_iff : p.inset w ≤ q.inset w ↔ p ≤ q := by
  simp only [le_def, inset]
  omega

lemma max_inset : max (p.inset w) (q.inset w) = (max p q).inset w := by
  simp only [max, inset_le_inset_iff]
  split_ifs <;> rfl

lemma plus_inset : p.plus (q.inset w) = (p.plus q).inset w := by
  by_cases hrow : q.row = 0
  · simp [plus, advance, inset, hrow, Nat.add_assoc]
  · simp [plus, advance, inset, hrow]

end Position

namespace Tree

def Extent.inset (w : Nat) (e : Extent) : Extent := ⟨e.start.inset w, e.stop.inset w⟩

def Mark.inset (w : Nat) : Mark → Mark
  | known p => known (p.inset w)
  | endsOn row => endsOn row

mutual

def Node.inset (w : Nat) : Node → Node
  | .mk mark shape => .mk (mark.map (Mark.inset w)) (Shape.inset w shape)

def Shape.inset (w : Nat) : Shape Node → Shape Node
  | .module body => .module (insetAll w body)
  | .functionDef name decorators args returns body isAsync =>
    .functionDef name (insetAll w decorators) (Node.inset w args) (insetMaybe w returns) (insetAll w body) isAsync
  | .classDef name decorators bases body =>
    .classDef name (insetAll w decorators) (insetAll w bases) (insetAll w body)
  | .returnValue value => .returnValue (insetMaybe w value)
  | .delete targets => .delete (insetAll w targets)
  | .assign targets value => .assign (insetAll w targets) (Node.inset w value)
  | .augAssign target op value => .augAssign (Node.inset w target) op (Node.inset w value)
  | .annAssign target hint value => .annAssign (Node.inset w target) (Node.inset w hint) (insetMaybe w value)
  | .forLoop target iter body orelse isAsync =>
    .forLoop (Node.inset w target) (Node.inset w iter) (insetAll w body) (insetAll w orelse) isAsync
  | .whileLoop test body orelse => .whileLoop (Node.inset w test) (insetAll w body) (insetAll w orelse)
  | .branch test body orelse => .branch (Node.inset w test) (insetAll w body) (insetAll w orelse)
  | .withBlock items body isAsync => .withBlock (insetAll w items) (insetAll w body) isAsync
  | .withItem context target => .withItem (Node.inset w context) (insetMaybe w target)
  | .raise exc cause => .raise (insetMaybe w exc) (insetMaybe w cause)
  | .tryBlock body handlers orelse final =>
    .tryBlock (insetAll w body) (insetAll w handlers) (insetAll w orelse) (insetAll w final)
  | .exceptHandler type name body => .exceptHandler (insetMaybe w type) name (insetAll w body)
  | .assertion test message => .assertion (Node.inset w test) (insetMaybe w message)
  | .importNames names => .importNames (insetAll w names)
  | .importFrom source names level => .importFrom source (insetAll w names) level
  | .importAlias name asname written => .importAlias name asname (written.inset w)
  | .globalNames names => .globalNames names
  | .nonlocalNames names => .nonlocalNames names
  | .expr value => .expr (Node.inset w value)
  | .pass => .pass
  | .breakLoop => .breakLoop
  | .continueLoop => .continueLoop
  | .print dest values newline => .print (insetMaybe w dest) (insetAll w values) newline
  | .exec body globals locals => .exec (Node.inset w body) (insetMaybe w globals) (insetMaybe w locals)
  | .boolOp op values => .boolOp op (insetAll w values)
  | .namedExpr target value => .namedExpr (Node.inset w target) (Node.inset w value)
  | .binOp left op right => .binOp (Node.inset w left) op (Node.inset w right)
  | .unaryOp op operand => .unaryOp op (Node.inset w operand)
  | .lambda args body => .lambda (Node.inset w args) (Node.inset w body)
  | .ifExp test body orelse => .ifExp (Node.inset w test) (Node.inset w body) (Node.inset w orelse)
  | .dict entries => .dict (insetEntries w entries)
  | .set elts => .set (insetAll w elts)
  | .listComp elt generators => .listComp (Node.inset w elt) (insetAll w generators)
  | .setComp elt generators => .setComp (Node.inset w elt) (insetAll w generators)
  | .dictComp key value generators => .dictComp (Node.inset w key) (Node.inset w value) (insetAll w generators)
  | .generatorExp elt generators => .generatorExp (Node.inset w elt) (insetAll w generators)
  | .comprehension target iter ifs isAsync =>
    .comprehension (Node.inset w target) (Node.inset w iter) (insetAll w ifs) isAsync
  | .await value => .await (Node.inset w value)
  | .yieldValue value => .yieldValue (insetMaybe w value)
  | .yieldFrom value => .yieldFrom (Node.inset w value)
  | .compare left ops comparators => .compare (Node.inset w left) ops (insetAll w comparators)
  | .call func args => .call (Node.inset w func) (insetAll w args)
  | .keyword name value => .keyword name (Node.inset w value)
  | .num text => .num text
  | .str value bytes written => .str value bytes (written.inset w)
  | .unreadableStr token => .unreadableStr token
  | .joinedStr text => .joinedStr text
  | .nameConstant value => .nameConstant value
  | .ellipsis => .ellipsis
  | .attr value name => .attr (Node.inset w value) name
  | .subscript value index => .subscript (Node.inset w value) (Node.inset w index)
  | .slice lower upper step => .slice (insetMaybe w lower) (insetMaybe w upper) (insetMaybe w step)
  | .starred value => .starred (Node.inset w value)
  | .name id => .name id
  | .list elts => .list (insetAll w elts)
  | .tuple elts => .tuple (insetAll w elts)
  | .arguments positional vararg keywordOnly kwarg =>
    .arguments (insetParameters w positional) vararg (insetParameters w keywordOnly) kwarg
  | .arg name hint => .arg name (insetMaybe w hint)
  | .other kind parts => .other kind (insetAll w parts)

def insetAll (w : Nat) : List Node → List Node
  | [] => []
  | n :: ns => Node.inset w n :: insetAll w ns

def insetMaybe (w : Nat) : Option Node → Option Node
  | none => none
  | some n => some (Node.inset w n)

def insetEntries (w : Nat) : List (Option Node × Node) → List (Option Node × Node)
  | [] => []
  | e :: es => insetEntry w e :: insetEntries w es

def insetEntry (w : Nat) : Option Node × Node → Option Node × Node
  | (key, value) => (insetMaybe w key, Node.inset w value)

def insetParameters (w : Nat) : List (Node × Option Node) → List (Node × Option Node)
  | [] => []
  | p :: ps => insetParameter w p :: insetParameters w ps

def insetParameter (w : Nat) : Node × Option Node → Node × Option Node
  | (arg, default) => (Node.inset w arg, insetMaybe w default)

end

variable {w : Nat}

@[simp] lemma insetAll_eq (ns : List Node) : insetAll w ns = ns.map (Node.inset w) := by
  induction ns with
  | nil => rfl
  | cons n ns ih => rw [insetAll, ih, List.map_cons]

@[simp] lemma insetMaybe_eq (n : Option Node) : insetMaybe w n = n.map (Node.inset w) := by
  cases n <;> rfl

@[simp] lemma insetEntries_eq (es : List (Option Node × Node)) :
    insetEntries w es = es.map (Prod.map (Option.map (Node.inset w)) (Node.inset w)) := by
  induction es with
  | nil => rfl
  | cons e es ih =>
    rw [insetEntries, ih, List.map_cons, insetEntry, insetMaybe_eq]
    rfl

@[simp] lemma insetParameters_eq (ps : List (Node × Option Node)) :
    insetParameters w ps = ps.map (Prod.map (Node.inset w) (Option.map (Node.inset w))) := by
  induction ps with
  | nil => rfl
  | cons p ps ih =>
    rw [insetParameters, ih, List.map_cons, insetParameter, insetMaybe_eq]
    rfl

lemma Shape.children_inset (s : Shape Node) : (s.inset w).children = s.children.map (Node.inset w) := by
  cases s <;>
    simp [Shape.inset, Shape.children, Shape.fieldNodes, Shape.fields, Field.nodes, Option.toList_map, List.flatMap_map,
      List.map_flatMap]

namespace Node

variable (n : Node)

lemma mark_inset : (n.inset w).mark = n.mark.map (Mark.inset w) := by
  cases n
  rfl

lemma shape_inset : (n.inset w).shape = n.shape.inset w := by
  cases n
  rfl

lemma children_inset : (n.inset w).children = n.children.map (Node.inset w) := by
  rw [children, shape_inset, Shape.children_inset, children]

end Node

end Tree

end SourceBlocks
