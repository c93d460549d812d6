import SourceBlocks.Grammar.Phrase
import SourceBlocks.ParseTree.Kind

/-!
The tree of a source as it is written, with its tokens and brackets.
-/

namespace SourceBlocks

open SourceBlocks.Grammar (Head Onset Role markOf)
open SourceBlocks.Tree (Mark)

structure Span where
  start : Option Position
  stop : Option Position
  lead : Option Nat
deriving Repr

namespace Span

def unknown : Span := ⟨none, none, none⟩

def ofOnset : Onset → Span
  | .token start => ⟨some start, none, none⟩
  | .part start lead => ⟨some start, none, lead⟩
  | .hidden => unknown

def mark (s : Span) : Option Mark := s.start.map (markOf · s.lead)

def place (s : Span) : Position := s.start.getD .start

end Span

inductive ParseTree where
  | mk (kind : Kind) (role : Option Role) (span : Span) (text : List Char)
      (children : List ParseTree)
deriving Repr

namespace ParseTree

def kind : ParseTree → Kind
  | mk kind _ _ _ _ => kind

def role : ParseTree → Option Role
  | mk _ role _ _ _ => role

def span : ParseTree → Span
  | mk _ _ span _ _ => span

def text : ParseTree → List Char
  | mk _ _ _ text _ => text

def children : ParseTree → List ParseTree
  | mk _ _ _ _ children => children

def mark (t : ParseTree) : Option Mark := t.span.mark

def isNamed (t : ParseTree) : Bool := t.kind ≠ .token

def named (t : ParseTree) : List ParseTree := t.children.filter isNamed

def hasRole (role : Role) (t : ParseTree) : Bool := t.role = some role

def part? (t : ParseTree) (role : Role) : Option ParseTree := t.children.find? (hasRole role)

def isToken (s : String) (t : ParseTree) : Bool := t.kind = .token && t.text = s.toList

def startsAsync (t : ParseTree) : Bool := t.children.head?.any (isToken "async")

def string (t : ParseTree) : String := String.ofList t.text

def exposed (t : ParseTree) : List ParseTree := if t.kind = .hidden then t.children else [t]

def token (s : String) : ParseTree := mk .token none .unknown s.toList []

def leaf (kind : Kind) (text : List Char) : ParseTree := mk kind none .unknown text []

def node (onset : Onset) (kind : Kind) (children : List ParseTree) : ParseTree :=
  mk kind none (.ofOnset onset) [] children

def inner (kind : Kind) (children : List ParseTree) : ParseTree := node .hidden kind children

def fill (role : Role) : ParseTree → ParseTree
  | mk kind _ span text children => mk kind (some role) span text children

def separated (ts : List ParseTree) : List ParseTree := ts.intersperse (token ",")

mutual

def depth : ParseTree → Nat
  | mk _ _ _ _ children => depths children + 1

def depths : List ParseTree → Nat
  | [] => 0
  | t :: ts => max t.depth (depths ts)

end

mutual

def head : ParseTree → Head
  | mk kind _ _ _ children => match kind with
    | .identifier => .name
    | .member => .part
    | .subscript => .part
    | .call => .call
    | .parenthesizedExpression => headOfFirst children
    | _ => .other

def headOfFirst : List ParseTree → Head
  | [] => .other
  | t :: ts => if t.isNamed then t.head else headOfFirst ts

end

end ParseTree

end SourceBlocks
