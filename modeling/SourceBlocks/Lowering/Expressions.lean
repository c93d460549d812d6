import SourceBlocks.Grammar.Abstract
import SourceBlocks.Literal.Token
import SourceBlocks.Lowering.Basic

namespace SourceBlocks.Lowering

open Lower
open SourceBlocks.Lexis (startsWithChar)
open SourceBlocks.Tree (Extent Shape Stored)

section Strings

def pieces (t : ParseTree) : List ParseTree :=
  if t.kind = .concatenatedString then t.named else [t]

def decode (t : ParseTree) : Lower Literal.Decoded := match Literal.decode t.text with
  | .ok d => pure d
  | .error e => fault (.refused (.token e))

def extent (t : ParseTree) : Extent := ⟨t.span.place, t.span.stop.getD t.span.place⟩

def string (t : ParseTree) : Lower Nat :=
  if (pieces t).any (fun p => startsWithChar '\x60' p.text) then push t.mark (.other "repr" [])
  else do
    let ds ← (pieces t).mapM decode
    if ds.any (·.formatted) then push t.mark (.joinedStr t.string)
    else
      push t.mark (.str (String.ofList (ds.flatMap (·.value))) ((ds.head?.map (·.bytes)).getD false)
        (extent t))

end Strings

variable (g : Lowering)

section Parameters

structure Collected where
  args : List Nat
  defaults : List Nat
  keywordOnly : List Nat
  keywordDefaults : List (Option Nat)
  vararg : Option String
  kwarg : Option String
  starred : Bool

namespace Collected

def nothing : Collected := ⟨[], [], [], [], none, none, false⟩

def rest (c : Collected) (name : String) : Collected :=
  { c with vararg := some name, starred := true }

def options (c : Collected) (name : String) : Collected := { c with kwarg := some name }

def add (c : Collected) (arg : Nat) (default : Option Nat) : Collected :=
  if c.starred then
    { c with
      keywordOnly := c.keywordOnly ++ [arg]
      keywordDefaults := c.keywordDefaults ++ [default] }
  else { c with args := c.args ++ [arg], defaults := c.defaults ++ default.toList }

def construct (c : Collected) : Stored Nat :=
  .arguments c.args c.vararg c.keywordOnly c.keywordDefaults c.kwarg c.defaults

end Collected

def namedParameter (c : Collected) (t name : ParseTree) (type default : Option ParseTree) :
    Lower Collected := do
  if !c.starred && default.isNone && !c.defaults.isEmpty then
    meet (.default t.span.place)
  let type ← g.optional type
  let arg ← push t.mark (.arg name.string type)
  let default ← g.optional default
  pure (c.add arg default)

def splatName (t : ParseTree) : String := Grammar.nameBehindStars t.text

def parameter (c : Collected) (t : ParseTree) : Lower Collected := match t.kind with
  | .listSplat => pure (c.rest (splatName t))
  | .dictionarySplat => pure (c.options (splatName t))
  | .keywordSeparator => pure { c with starred := true }
  | .positionalSeparator => pure c
  | .typedParameter =>
    match t.named.find? (fun p => !p.hasRole .type) with
    | some p =>
      if p.kind = .listSplat then pure (c.rest (splatName p))
      else if p.kind = .dictionarySplat then pure (c.options (splatName p))
      else namedParameter g c t p (t.part? .type) none
    | none => namedParameter g c t t (t.part? .type) none
  | .defaultParameter => do
    let name ← required t .name
    let value ← required t .value
    namedParameter g c t name none (some value)
  | .typedDefaultParameter => do
    let name ← required t .name
    let value ← required t .value
    namedParameter g c t name (t.part? .type) (some value)
  | _ => namedParameter g c t t none none

def parameters (t : Option ParseTree) : Lower Nat := do
  let c ← ((t.map ParseTree.named).getD []).foldlM (parameter g) .nothing
  record none c.construct

end Parameters

section Arguments

def argument (t : ParseTree) : Lower Nat := match t.kind with
  | .keywordArgument => do
    let name ← required t .name
    let value ← g.expr (← required t .value)
    push none (.keyword (some name.string) value)
  | .dictionarySplat => do
    let value ← g.firstNamed t
    push none (.keyword none value)
  | _ => g.expr t

def arguments (t : ParseTree) : Lower (List Nat) := t.named.mapM (argument g)

def loneArgument (t : ParseTree) : Lower Nat := do
  let value ← match t.part? .value with
    | some v => g.expr v
    | none => g.firstNamed t
  push none (.keyword ((t.part? .name).map ParseTree.string) value)

end Arguments

section Parts

def entry (t : ParseTree) : Lower (Option Nat × Nat) :=
  if t.kind = .pair then do
    let key ← g.expr (← required t .key)
    let value ← g.expr (← required t .value)
    pure (some key, value)
  else do
    let value ← g.firstNamed t
    pure (none, value)

structure Bounds where
  lower : Option Nat
  upper : Option Nat
  step : Option Nat

def Bounds.set (b : Bounds) (i : Nat) (bound : Nat) : Bounds := match i with
  | 0 => { b with lower := some bound }
  | 1 => { b with upper := some bound }
  | _ => { b with step := some bound }

def bounds : List ParseTree → Nat → Bounds → Lower Bounds
  | [], _, b => pure b
  | t :: ts, i, b =>
    if !t.isNamed then bounds ts (if t.isToken ":" then i + 1 else i) b
    else if i < 3 then do
      let bound ← g.expr t
      bounds ts i (b.set i bound)
    else bounds ts i b

def slice (t : ParseTree) : Lower Nat := do
  let b ← bounds g t.children 0 ⟨none, none, none⟩
  push none (.slice b.lower b.upper b.step)

structure Pending where
  target : Nat
  iter : Nat
  ifs : List Nat
  isAsync : Bool

def Pending.shape (p : Pending) : Shape Nat := .comprehension p.target p.iter p.ifs p.isAsync

def loose (t : ParseTree) : List ParseTree → Lower Nat
  | [] => malformed t
  | [single] => g.expr single
  | first :: rest => do
    let elts ← g.all (first :: rest)
    push first.mark (.tuple elts)

def forInClause (t : ParseTree) : Lower Pending := do
  let target ← g.expr (← required t .left)
  let iter ← loose g t (t.named.filter (fun c => !c.hasRole .left))
  pure ⟨target, iter, [], t.startsAsync⟩

/-- Clauses that wait, the last one first. A condition belongs to the last clause before it. -/
def pending : List ParseTree → List Pending → Lower (List Pending)
  | [], ps => pure ps.reverse
  | t :: ts, ps => match t.kind with
    | .forInClause => do
      let p ← forInClause g t
      pending ts (p :: ps)
    | .ifClause => do
      let test ← g.firstNamed t
      match ps with
      | [] => malformed t
      | p :: ps => pending ts ({ p with ifs := p.ifs ++ [test] } :: ps)
    | _ => pending ts ps

def generators (t : ParseTree) : Lower (List Nat) := do
  let ps ← pending g t.named []
  ps.mapM (fun p => push none p.shape)

mutual

def operands (op : List Char) : ParseTree → Lower (List ParseTree)
  | .mk kind role span text children =>
    let t : ParseTree := .mk kind role span text children
    if kind = .booleanOperator then do
      let operator ← required t .operator
      if operator.text = op then do
        let right ← required t .right
        let left ← leftOperands op t children
        pure (left ++ [right])
      else pure [t]
    else pure [t]

def leftOperands (op : List Char) (t : ParseTree) : List ParseTree → Lower (List ParseTree)
  | [] => fault (.lacks t.kind .left)
  | c :: cs => if c.hasRole .left then operands op c else leftOperands op t cs

end

end Parts

def boolean (t : ParseTree) : Lower Nat := do
  let operator ← required t .operator
  let ts ← operands operator.text t
  let values ← g.all ts
  push t.mark (.boolOp operator.string values)

def comparison (t : ParseTree) : Lower Nat := match t.named with
  | [] => malformed t
  | first :: rest => do
    let ops := (t.children.filter (!·.isNamed)).map ParseTree.string
    let left ← g.expr first
    let comparators ← g.all rest
    push t.mark (.compare left ops comparators)

def wrapped (t : ParseTree) : Lower Nat := match t.named with
  | [c] => g.expr c
  | _ => g.other t

def yielded (t : ParseTree) : Lower Nat :=
  if t.children.any (ParseTree.isToken "from") then
    match t.named with
    | [] => malformed t
    | c :: _ => do
      let value ← g.expr c
      push t.mark (.yieldFrom value)
  else do
    let value ← g.optional t.named.head?
    push t.mark (.yieldValue value)

def index (t : ParseTree) : Lower Nat :=
  let subs := t.named.filter (fun c => !c.hasRole .value)
  match subs, t.children.any (ParseTree.isToken ",") with
  | [single], false => g.expr single
  | _, _ => do
    let elts ← g.all subs
    let mark ← firstMark elts
    push mark (.tuple elts)

def call (t : ParseTree) : Lower Nat := do
  let func ← g.expr (← required t .function)
  let list ← required t .arguments
  let args ← if list.kind = .generatorExpression then do
      let i ← g.expr list
      pure [i]
    else arguments g list
  push t.mark (.call func args)

def expression (t : ParseTree) : Lower Nat := match t.kind with
  | .identifier => push t.mark (.name t.string)
  | .number => push t.mark (.num t.string)
  | .constant => push t.mark (.nameConstant t.string)
  | .ellipsis => push t.mark .ellipsis
  | .string | .concatenatedString => string t
  | .parenthesizedExpression | .type | .asPatternTarget | .decorator => wrapped g t
  | .tuple | .expressionList => do push t.mark (.tuple (← g.all t.named))
  | .list => do push t.mark (.list (← g.all t.named))
  | .set => do push t.mark (.set (← g.all t.named))
  | .dictionary => do
    let es ← t.named.mapM (entry g)
    record t.mark (.dict (es.map Prod.fst) (es.map Prod.snd))
  | .listComprehension => do
    let elt ← g.expr (← required t .body)
    push t.mark (.listComp elt (← generators g t))
  | .setComprehension => do
    let elt ← g.expr (← required t .body)
    push t.mark (.setComp elt (← generators g t))
  | .generatorExpression => do
    let elt ← g.expr (← required t .body)
    push t.mark (.generatorExp elt (← generators g t))
  | .dictionaryComprehension => do
    let pair ← required t .body
    let key ← g.expr (← required pair .key)
    let value ← g.expr (← required pair .value)
    push t.mark (.dictComp key value (← generators g t))
  | .binaryOperator => do
    let left ← g.expr (← required t .left)
    let operator ← required t .operator
    let right ← g.expr (← required t .right)
    push t.mark (.binOp left operator.string right)
  | .unaryOperator => do
    let operator ← required t .operator
    let operand ← g.expr (← required t .argument)
    push t.mark (.unaryOp operator.string operand)
  | .notOperator => do
    let operand ← g.expr (← required t .argument)
    push t.mark (.unaryOp "not" operand)
  | .booleanOperator => boolean g t
  | .comparisonOperator => comparison g t
  | .conditionalExpression => match t.named with
    | [body, test, orelse] => do
      let body ← g.expr body
      let test ← g.expr test
      let orelse ← g.expr orelse
      push t.mark (.ifExp test body orelse)
    | _ => malformed t
  | .namedExpression => do
    let target ← g.expr (← required t .name)
    let value ← g.expr (← required t .value)
    push t.mark (.namedExpr target value)
  | .lambda => do
    let args ← parameters g (t.part? .parameters)
    let body ← g.expr (← required t .body)
    push t.mark (.lambda args body)
  | .await => do push t.mark (.await (← g.firstNamed t))
  | .yield => yielded g t
  | .member => do
    let value ← g.expr (← required t .object)
    let name ← required t .attribute
    push t.mark (.attr value name.string)
  | .subscript => do
    let value ← g.expr (← required t .value)
    push t.mark (.subscript value (← index g t))
  | .slice => slice g t
  | .call => call g t
  | .listSplat => do push t.mark (.starred (← g.firstNamed t))
  | .keywordArgument | .dictionarySplat => loneArgument g t
  | _ => g.other t

end SourceBlocks.Lowering
