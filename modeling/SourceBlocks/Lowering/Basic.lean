import SourceBlocks.Dialect
import SourceBlocks.ParseTree.Basic
import SourceBlocks.Tree.Arena

/-!
Lowering: a parse tree is gone through part by part, and the constructs it is made of are put into
a row, each behind its parts.
-/

namespace SourceBlocks

open SourceBlocks.Dialect (Demand Refusal)
open SourceBlocks.Grammar (Role)
open SourceBlocks.Tree (Arena Mark Shape Stored)

structure Store where
  arena : Arena
  features : Features

inductive Fault where
  | refused (r : Refusal)
  | malformed (place : Position)
  | lacks (kind : Kind) (role : Role)
  | emptyItem

def Grammar.Role.written : Role → String
  | .alias => "alias"
  | .alternative => "alternative"
  | .argument => "argument"
  | .arguments => "arguments"
  | .attribute => "attribute"
  | .body => "body"
  | .cause => "cause"
  | .condition => "condition"
  | .consequence => "consequence"
  | .definition => "definition"
  | .function => "function"
  | .key => "key"
  | .left => "left"
  | .moduleName => "module_name"
  | .name => "name"
  | .object => "object"
  | .operator => "operator"
  | .parameters => "parameters"
  | .returnType => "return_type"
  | .right => "right"
  | .superclasses => "superclasses"
  | .type => "type"
  | .value => "value"

def Fault.toError (start : Position) : Fault → Error
  | refused r => r.toError start
  | malformed p => .rejectedAt "invalid syntax" (start.plus p)
  | lacks kind role => .internal s!"{kind.name} node has no '{role.written}' field"
  | emptyItem => .internal "with_item has no value"

abbrev Lower := StateT Store (Except Fault)

namespace Lower

def record (mark : Option Mark) (construct : Stored Nat) : Lower Nat := fun s =>
  let (i, arena) := Arena.push ⟨mark, construct⟩ s.arena
  .ok (i, { s with arena })

def push (mark : Option Mark) (shape : Shape Nat) : Lower Nat := record mark (.plain shape)

def markOf (i : Nat) : Lower (Option Mark) := fun s => .ok ((s.arena[i]?).bind Tree.Entry.mark, s)

def firstMark : List Nat → Lower (Option Mark)
  | [] => pure none
  | i :: _ => markOf i

def meet (d : Demand) : Lower Unit := fun s => match Dialect.meet s.features d with
  | .ok features => .ok ((), { s with features })
  | .error r => .error (.refused r)

def fault {α : Type} (f : Fault) : Lower α := fun _ => .error f

def malformed {α : Type} (t : ParseTree) : Lower α := fault (.malformed t.span.place)

def required (t : ParseTree) (role : Role) : Lower ParseTree := match t.part? role with
  | some c => pure c
  | none => fault (.lacks t.kind role)

end Lower

/-- How parts are lowered. Each construct is lowered with this for its parts; all of it is tied
together where a whole tree is lowered. -/
structure Lowering where
  expr : ParseTree → Lower Nat
  stmt : ParseTree → Lower Nat
  body : ParseTree → Lower (List Nat)

namespace Lowering

open Lower

variable (g : Lowering)

def optional : Option ParseTree → Lower (Option Nat)
  | none => pure none
  | some t => do
    let i ← g.expr t
    pure (some i)

def all (ts : List ParseTree) : Lower (List Nat) := ts.mapM g.expr

def firstNamed (t : ParseTree) : Lower Nat := match t.named with
  | c :: _ => g.expr c
  | [] => malformed t

def otherPart (t : ParseTree) : Lower (List Nat) :=
  if t.kind = .block then g.body t
  else if t.kind ∈ Kind.statements then do
    let i ← g.stmt t
    pure [i]
  else do
    let i ← g.expr t
    pure [i]

def other (t : ParseTree) : Lower Nat := do
  let parts ← t.named.mapM g.otherPart
  push t.mark (.other t.kind.name parts.flatten)

end Lowering

end SourceBlocks
