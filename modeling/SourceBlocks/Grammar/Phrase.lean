import SourceBlocks.Tree.Node

/-!
Phrases: what rules build, together with what its surroundings have to know of how it is written.
-/

namespace SourceBlocks.Grammar

open SourceBlocks.Tree (Mark Shape)

structure Phrase (τ : Type) where
  node : τ
  start : Position
  stop : Nat
  /-- The row on which the string literal ends that the phrase begins with, if it takes several
  rows. -/
  lead : Option Nat
  grouped : Bool
  aliased : Option (List Char)
deriving Repr

def markOf (start : Position) (lead : Option Nat) : Mark :=
  match lead with
  | some row => .endsOn row
  | none => .known start

/-- What a construct begins with: a token of its own or one of its parts. Of some it is not kept. -/
inductive Onset where
  | token (start : Position)
  | part (start : Position) (lead : Option Nat)
  | hidden
deriving DecidableEq, Repr

@[simp] def Onset.mark : Onset → Option Mark
  | token start => some (.known start)
  | part start lead => some (markOf start lead)
  | hidden => none

structure Piece where
  start : Position
  stop : Position
  text : List Char
deriving Repr

inductive Parameter (τ : Type) where
  | named (arg : τ) (default : Option τ)
  | rest (written : List Char) (hint : Option τ)
  | options (written : List Char) (hint : Option τ)
  | keywordMark
  | positionalMark
deriving Repr

inductive Head where
  | name
  | part
  | call
  | other
deriving DecidableEq, Repr

inductive Role where
  | alias
  | alternative
  | argument
  | arguments
  | attribute
  | body
  | cause
  | condition
  | consequence
  | definition
  | function
  | key
  | left
  | moduleName
  | name
  | object
  | operator
  | parameters
  | returnType
  | right
  | superclasses
  | type
  | value
deriving DecidableEq, Repr

class Builder (τ : Type) where
  node : Onset → Shape τ → τ
  string : Position → List Char → List Piece → τ
  group : Position → τ → τ
  head : τ → Head
  fill : Role → τ → τ
  loose : Onset → List τ → τ
  subscripts : τ → List τ → τ
  operands : String → Phrase τ → List τ
  unalias : Phrase τ → τ × Option τ
  aliasTarget : List Char → τ → τ
  soleArgument : τ → List τ
  parameters : List (Parameter τ) → τ
  imported : Position → List Char → Option String → τ
  block : List τ → List τ
  clause : String → List τ → List τ
  furtherBranch : Position → τ → List τ → List τ → List τ
  /-- A construct with parts that are read and not kept. -/
  dropping : τ → List τ → τ

variable {τ : Type} [Builder τ]

namespace Phrase

def leaf (start : Position) (stop : Nat) (shape : Shape τ) : Phrase τ :=
  ⟨Builder.node (.token start) shape, start, stop, none, false, none⟩

def mark (p : Phrase τ) : Mark := markOf p.start p.lead

def opening (p : Phrase τ) (shape : Shape τ) : τ := Builder.node (.part p.start p.lead) shape

def extend (p : Phrase τ) (stop : Nat) (shape : Shape τ) : Phrase τ :=
  ⟨p.opening shape, p.start, stop, p.lead, false, none⟩

def group (start : Position) (stop : Nat) (p : Phrase τ) : Phrase τ :=
  ⟨Builder.group start p.node, start, stop, none, true, none⟩

end Phrase

def unmarked (shape : Shape τ) : τ := Builder.node .hidden shape

def marked (start : Position) (shape : Shape τ) : τ := Builder.node (.token start) shape

end SourceBlocks.Grammar
