import SourceBlocks.Lowering.Expressions
import SourceBlocks.Text.Blank

namespace SourceBlocks.Lowering

open Lower
open SourceBlocks.Tree (Mark Shape)

variable (g : Lowering)

section Suites

def bodyPart (t : ParseTree) : Lower (List Nat) :=
  if t.kind = .block then g.body t
  else do
    let i ← g.stmt t
    pure [i]

def statements (t : ParseTree) : Lower (List Nat) := do
  let parts ← t.named.mapM (bodyPart g)
  pure parts.flatten

def clauseBody (t : ParseTree) : Lower (List Nat) :=
  match (t.part? .body).or (t.named.find? (·.kind = .block)) with
  | some body => bodyPart g body
  | none => pure []

def alternative (t : ParseTree) : Lower (List Nat) := match t.part? .alternative with
  | some clause => clauseBody g clause
  | none => pure []

def elseChain : List ParseTree → Lower (List Nat)
  | [] => pure []
  | t :: ts =>
    if t.kind = .elseClause then clauseBody g t
    else do
      let test ← g.expr (← required t .condition)
      let body ← bodyPart g (← required t .consequence)
      let orelse ← elseChain ts
      let i ← push t.mark (.branch test body orelse)
      pure [i]

end Suites

section Assignments

def assigned (t : ParseTree) : Lower Nat :=
  if t.kind = .assignment ∨ t.kind = .augmentedAssignment then g.other t else g.expr t

mutual

def chain : ParseTree → Lower (List Nat × Nat)
  | .mk kind role span text children => do
    let t : ParseTree := .mk kind role span text children
    if kind = .assignment ∧ (t.part? .type).isNone then do
      let target ← g.expr (← required t .left)
      let (targets, value) ← rightChain t children
      pure (target :: targets, value)
    else do
      let value ← assigned g t
      pure ([], value)

def rightChain (t : ParseTree) : List ParseTree → Lower (List Nat × Nat)
  | [] => fault (.lacks t.kind .right)
  | c :: cs => if c.hasRole .right then chain c else rightChain t cs

end

def assignment (t : ParseTree) (mark : Option Mark) : Lower Nat := do
  let left ← required t .left
  match t.part? .type with
  | some type => do
    let target ← g.expr left
    let hint ← g.expr type
    let value ← match t.part? .right with
      | some right => do
        let i ← assigned g right
        pure (some i)
      | none => pure none
    push mark (.annAssign target hint value)
  | none => do
    let target ← g.expr left
    let (targets, value) ← chain g (← required t .right)
    push mark (.assign (target :: targets) value)

def expressionStatement (t : ParseTree) : Lower Nat := match t.named with
  | [single] =>
    if single.kind = .assignment then assignment g single t.mark
    else if single.kind = .augmentedAssignment then do
      let target ← g.expr (← required single .left)
      let operator ← required single .operator
      let value ← assigned g (← required single .right)
      push t.mark (.augAssign target operator.string value)
    else do
      let value ← g.expr single
      push t.mark (.expr value)
  | ts => do
    let value ← loose g t ts
    push t.mark (.expr value)

end Assignments

section Imports

def importAlias (t : ParseTree) : Lower (String × Nat) := do
  let (name, asname) ← match t.kind with
    | .aliasedImport => do
      let name ← required t .name
      let asname ← required t .alias
      pure (String.ofList (Text.squash name.text), some asname.string)
    | .wildcardImport => pure ("*", none)
    | _ => pure (String.ofList (Text.squash t.text), none)
  let i ← push none (.importAlias name asname t.span.place)
  pure (name, i)

def importFrom (t : ParseTree) : Lower Nat := do
  let source := t.part? .moduleName
  let module := match source with
    | some m =>
      if m.kind = .relativeImport then
        (m.named.find? (·.kind = .dottedName)).map ParseTree.string
      else some m.string
    | none => none
  let level := match source with
    | some m => if m.kind = .relativeImport then (m.text.takeWhile (· = '.')).length else 0
    | none => 0
  let names ← (t.named.filter (fun c => !c.hasRole .moduleName)).mapM (importAlias ·)
  push t.mark (.importFrom module (names.map Prod.snd) level)

def feature (t : ParseTree) : Lower Nat := do
  let (name, i) ← importAlias t
  meet (.feature name t.span.place)
  pure i

def futureImport (t : ParseTree) : Lower Nat := do
  let names ← t.named.mapM (feature ·)
  push t.mark (.importFrom (some Dialect.featureModule) names 0)

end Imports

section Compound

def handler (t : ParseTree) : Lower Nat := do
  let (type, name) ← match t.named.filter (·.kind ≠ .block) with
    | [] => pure (none, none)
    | [only] =>
      if only.kind = .asPattern then do
        let type ← g.optional only.named.head?
        let bound := (only.part? .alias).or only.named[1]?
        pure (type, bound.map ParseTree.string)
      else do
        let type ← g.expr only
        pure (some type, none)
    | type :: bound :: _ => do
      let type ← g.expr type
      pure (some type, some bound.string)
  let body ← clauseBody g t
  push t.mark (.exceptHandler type name body)

structure Clauses where
  handlers : List Nat
  orelse : List Nat
  final : List Nat

def tryClause (c : Clauses) (t : ParseTree) : Lower Clauses := match t.kind with
  | .exceptClause => do
    let i ← handler g t
    pure { c with handlers := c.handlers ++ [i] }
  | .elseClause => do
    let orelse ← clauseBody g t
    pure { c with orelse }
  | .finallyClause => do
    let final ← clauseBody g t
    pure { c with final }
  | _ => pure c

def withItem (t : ParseTree) : Lower Nat := do
  let value ← match (t.part? .value).or t.named.head? with
    | some v => pure v
    | none => fault .emptyItem
  if value.kind = .asPattern then
    match value.named with
    | [] => malformed value
    | context :: more => do
      let context ← g.expr context
      let target ← g.optional ((value.part? .alias).or more.head?)
      push none (.withItem context target)
  else do
    let context ← g.expr value
    push none (.withItem context none)

def functionDef (t : ParseTree) (decorators : List Nat) (mark : Option Mark) : Lower Nat := do
  let name ← required t .name
  let args ← parameters g (t.part? .parameters)
  let returns ← g.optional (t.part? .returnType)
  let body ← bodyPart g (← required t .body)
  push mark (.functionDef name.string decorators args returns body t.startsAsync)

def classDef (t : ParseTree) (decorators : List Nat) (mark : Option Mark) : Lower Nat := do
  let name ← required t .name
  let bases ← match t.part? .superclasses with
    | some list => arguments g list
    | none => pure []
  let body ← bodyPart g (← required t .body)
  push mark (.classDef name.string decorators bases body)

def decorated (t : ParseTree) : Lower Nat := do
  let decorators ← (t.named.filter (·.kind = .decorator)).mapM g.firstNamed
  let definition ← required t .definition
  match definition.kind with
  | .functionDefinition => functionDef g definition decorators t.mark
  | .classDefinition => classDef g definition decorators t.mark
  | _ => g.other t

end Compound

def printed (p : Option Nat × List Nat) (t : ParseTree) : Lower (Option Nat × List Nat) :=
  if t.kind = .chevron then do
    let dest ← g.optional t.named.head?
    pure (dest, p.2)
  else do
    let value ← g.expr t
    pure (p.1, p.2 ++ [value])

def print (t : ParseTree) : Lower Nat := do
  meet (.printStatement t.span.place)
  let (dest, values) ← t.named.foldlM (printed g) (none, [])
  push t.mark (.print dest values (!t.children.getLast?.any (ParseTree.isToken ",")))

def statement (t : ParseTree) : Lower Nat := match t.kind with
  | .expressionStatement => expressionStatement g t
  | .returnStatement => do push t.mark (.returnValue (← g.optional t.named.head?))
  | .deleteStatement => match t.named with
    | [] => push t.mark (.delete [])
    | c :: _ => do
      let targets ← if c.kind = .expressionList then g.all c.named else g.all [c]
      push t.mark (.delete targets)
  | .raiseStatement => do
    let exc ← g.optional (t.named.find? (fun c => !c.hasRole .cause))
    let cause ← g.optional (t.part? .cause)
    push t.mark (.raise exc cause)
  | .passStatement => push t.mark .pass
  | .breakStatement => push t.mark .breakLoop
  | .continueStatement => push t.mark .continueLoop
  | .globalStatement => push t.mark (.globalNames (t.named.map ParseTree.string))
  | .nonlocalStatement => push t.mark (.nonlocalNames (t.named.map ParseTree.string))
  | .assertStatement => match t.named with
    | [] => malformed t
    | test :: more => do
      let test ← g.expr test
      let message ← g.optional more.head?
      push t.mark (.assertion test message)
  | .printStatement => print g t
  | .execStatement => match t.named with
    | [] => malformed t
    | code :: more => do
      let body ← g.expr code
      let globals ← g.optional more[0]?
      let locals ← g.optional more[1]?
      push t.mark (.exec body globals locals)
  | .importStatement => do
    let names ← t.named.mapM (importAlias ·)
    push t.mark (.importNames (names.map Prod.snd))
  | .importFromStatement => importFrom t
  | .futureImportStatement => futureImport t
  | .ifStatement => do
    let test ← g.expr (← required t .condition)
    let body ← bodyPart g (← required t .consequence)
    let orelse ← elseChain g
      (t.named.filter (fun c => c.kind = .elifClause || c.kind = .elseClause))
    push t.mark (.branch test body orelse)
  | .forStatement => do
    let target ← g.expr (← required t .left)
    let iter ← g.expr (← required t .right)
    let body ← bodyPart g (← required t .body)
    push t.mark (.forLoop target iter body (← alternative g t) t.startsAsync)
  | .whileStatement => do
    let test ← g.expr (← required t .condition)
    let body ← bodyPart g (← required t .body)
    push t.mark (.whileLoop test body (← alternative g t))
  | .tryStatement => do
    let body ← bodyPart g (← required t .body)
    let c ← t.named.foldlM (tryClause g) ⟨[], [], []⟩
    push t.mark (.tryBlock body c.handlers c.orelse c.final)
  | .withStatement => do
    let items ← ((t.named.filter (·.kind = .withClause)).flatMap ParseTree.named).mapM (withItem g)
    let body ← bodyPart g (← required t .body)
    push t.mark (.withBlock items body t.startsAsync)
  | .functionDefinition => functionDef g t [] t.mark
  | .classDefinition => classDef g t [] t.mark
  | .decoratedDefinition => decorated g t
  | _ => g.other t

def upTo : Nat → Lowering
  | 0 => ⟨malformed, malformed, malformed⟩
  | n + 1 => ⟨expression (upTo n), statement (upTo n), statements (upTo n)⟩

def module (t : ParseTree) : Lower Nat := do
  let body ← (upTo t.depth).body t
  push none (.module body)

end SourceBlocks.Lowering
