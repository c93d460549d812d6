import SourceBlocks.Grammar.CasePatterns
import SourceBlocks.Grammar.Cases
import SourceBlocks.Grammar.Definitions
import SourceBlocks.Grammar.Expressions
import SourceBlocks.Grammar.Handlers

namespace SourceBlocks.Grammar

open Lexis Grammar.Parser
open SourceBlocks.Tree (Shape)

variable {τ : Type} [Builder τ]

def asyncWord : Parser String := peek (do
  keyword "async"
  if ← look .line false then wordHere else pure "")

def asyncStatement (g : Rules τ) (start : Position) : Parser (List τ) := do
  let w ← asyncWord
  let behind (p : Parser τ) : Parser (List τ) := do
    keyword "async"
    toToken .inner false
    keyword w
    let n ← p
    pure [n]
  match w with
  | "def" => behind (functionDef g start [] true)
  | "for" => behind (forLoop g start true)
  | "with" => behind (withBlock g start true)
  | _ => statementLine g

def statement (g : Rules τ) : Parser (List τ) := do
  let c ← get
  let start := c.place
  if (Quote.atStart? c.rest).isSome then statementLine g
  else if ← startsWith "@" then do
    let n ← decorated g start
    pure [n]
  else do
    let w ← wordHere
    let behind (p : Parser τ) : Parser (List τ) := do
      advance w.length
      let n ← p
      pure [n]
    match w with
    | "if" => behind (branch g start)
    | "for" => behind (forLoop g start false)
    | "while" => behind (whileLoop g start)
    | "try" => behind (tryBlock g start)
    | "with" => behind (withBlock g start false)
    | "def" => behind (functionDef g start [] false)
    | "class" => behind (classDef g start [])
    | "async" => asyncStatement g start
    | "match" => (behind (choice g start)).or (statementLine g)
    | _ => statementLine g

def blockStep (g : Rules τ) : Parser (Option (List τ)) := do
  match ← aheadHere betweenStatements with
  | .shallower => do
    closeBlock
    pure none
  | .token c => do
    set c
    if c.rest.isEmpty then pure none
    else do
      let ns ← statement g
      pure (some ns)
  | _ => fail

def block (g : Rules τ) : Parser (List τ) := do
  let ns ← collect (blockStep g) g.bound
  pure ns.flatten

def rules (bound : Nat) : Nat → Rules τ
  | 0 => .none bound
  | n + 1 => {
      bound := bound
      expr := fun site level => expression (rules bound n) site level
      target := fun follow => target (rules bound n) follow
      hint := fun site inType => hint (rules bound n) site inType
      casePattern := fun follow => casePattern (rules bound n) follow
      block := fun c => block (rules bound n) c }

/-- No source nests deeper than its length allows, since a level takes a character or leads to one
that does. -/
def depth (source : List Char) : Nat := 4 * source.length + 64

def read (margin : Nat) (source : List Char) : Except Position τ :=
  let bound := source.length + 16
  match block (rules bound (depth source)) (Cursor.ofSource margin source) with
  | .ok (ns, _) => .ok (unmarked (.module ns))
  | .error p => .error p

end SourceBlocks.Grammar
