import SourceBlocks.Grammar.SimpleStatements

namespace SourceBlocks.Grammar

open Lexis Grammar.Parser
open SourceBlocks.Tree (Shape)

variable {τ : Type} [Builder τ]

def betweenStatements : Expectation :=
  { Expectation.nothing with shallower := true, string := true }

def openBlock (column : Nat) : Parser Unit :=
  modify (fun c => { c with indents := column :: c.indents })

def closeBlock : Parser Unit := modify (fun c => { c with indents := c.indents.drop 1 })

def colon : Parser Unit := do
  toToken .inner false
  let naming ← startsWith ":="
  require (!naming)
  symbol ":"

def suite (g : Rules τ) : Parser (List τ) := do
  colon
  match ← aheadHere { Expectation.nothing with lineEnd := true, deeper := true, string := true } with
  | .deeper column => do
    openBlock column
    g.block
  | .lineEnd => pure []
  | .token c => do
    set c
    statementLine g
  | .shallower => fail

def continuation? (e : Expectation) (w : String) : Parser Bool := do
  match ← aheadHere e with
  | .token c =>
    if String.ofList (word c.rest) = w then do
      set (c.skip w.length)
      pure true
    else pure false
  | _ => pure false

def suiteBehind (g : Rules τ) (w : String) : Parser (List τ) := do
  if ← continuation? betweenStatements w then do
    let body ← suite g
    pure (Builder.clause w body)
  else pure []

def alternatives (g : Rules τ) : Nat → Parser (List τ)
  | 0 => fail
  | fuel + 1 => do
    match ← aheadHere betweenStatements with
    | .token c =>
      if String.ofList (word c.rest) = "elif" then do
        set (c.skip 4)
        toOperand
        let test ← g.expr .inner Level.lowest
        let body ← suite g
        let orelse ← alternatives g fuel
        pure (Builder.furtherBranch c.place test.node body orelse)
      else suiteBehind g "else"
    | _ => pure []

def branch (g : Rules τ) (start : Position) : Parser τ := do
  toOperand
  let test ← g.expr .inner Level.lowest
  let body ← suite g
  let orelse ← alternatives g g.bound
  pure (marked start (.branch test.node body orelse))

def whileLoop (g : Rules τ) (start : Position) : Parser τ := do
  toOperand
  let test ← g.expr .inner Level.lowest
  let body ← suite g
  let orelse ← suiteBehind g "else"
  pure (marked start (.whileLoop test.node body orelse))

def forLoop (g : Rules τ) (start : Position) (isAsync : Bool) : Parser τ := do
  toOperand
  let target ← targetList g "in"
  toToken .inner false
  keyword "in"
  toOperand
  let iter ← expressions g .inner
  let body ← suite g
  let orelse ← suiteBehind g "else"
  pure (marked start (.forLoop target.node iter.node body orelse isAsync))

def withItem (p : Phrase τ) : τ :=
  unmarked (.withItem (Builder.unalias p).1 (Builder.unalias p).2)

def bracketedItems (g : Rules τ) : Parser (List (Phrase τ)) := do
  symbol "("
  toToken .bracket true
  let first ← g.expr .bracket Level.lowest
  let (ps, _) ← commaList g .bracket first
  require (2 ≤ ps.length)
  toToken .bracket false
  symbol ")"
  peek colon
  pure ps

def openItems (g : Rules τ) : Parser (List (Phrase τ)) := do
  let first ← g.expr .inner Level.lowest
  let (ps, _) ← commaList g .inner first
  pure ps

def withBlock (g : Rules τ) (start : Position) (isAsync : Bool) : Parser τ := do
  toOperand
  let items ←
    if ← startsWith "(" then (bracketedItems g).or (openItems g) else openItems g
  let body ← suite g
  pure (marked start (.withBlock (items.map withItem) body isAsync))

end SourceBlocks.Grammar
