import SourceBlocks.Grammar.Hints
import SourceBlocks.Grammar.Assignments
import SourceBlocks.Grammar.Imports

namespace SourceBlocks.Grammar

open Lexis Grammar.Parser
open SourceBlocks.Tree (Shape)

variable {τ : Type} [Builder τ]

def optionalExpressions (g : Rules τ) : Parser (Option (Phrase τ)) := do
  if ← both (look .line true) operandHere then some <$> expressions g .line else pure none

def nameList (g : Rules τ) : Parser (List String) := do
  toToken .inner false
  let first ← name
  let next : Parser (Option String) := do
    if ← both (look .line false) (symbol? ",") then do
      toToken .inner false
      some <$> name
    else pure none
  let more ← collect next g.bound
  pure (first :: more)

def strictList (g : Rules τ) : Parser (List (Phrase τ)) := do
  toOperand
  let first ← g.expr .line Level.lowest
  let next : Parser (Option (Phrase τ)) := do
    if ← both (look .line false) (symbol? ",") then do
      toOperand
      some <$> g.expr .line Level.lowest
    else pure none
  let more ← collect next g.bound
  pure (first :: more)

def deletion (g : Rules τ) (start : Position) : Parser τ := do
  toOperand
  let first ← g.expr .line Level.lowest
  let (ps, _) ← commaList g .line first
  pure (marked start (.delete (ps.map Phrase.node)))

def raising (g : Rules τ) (start : Position) : Parser τ := do
  let isValue : Parser Bool := do
    pure ((← wordHere) ≠ "from")
  let exc ← if ← both (look .line true) isValue then optionalExpressions g else pure none
  if ← both (look .line false) (keyword? "from") then do
    toOperand
    let cause ← g.expr .line Level.lowest
    pure (marked start (.raise (exc.map Phrase.node) (some cause.node)))
  else pure (marked start (.raise (exc.map Phrase.node) none))

def asserting (g : Rules τ) (start : Position) : Parser τ := do
  match ← strictList g with
  | test :: more =>
    let n := marked start (.assertion test.node (more.head?.map Phrase.node))
    pure (Builder.dropping n ((more.drop 1).map Phrase.node))
  | [] => fail

def printValues (g : Rules τ) : Parser (List τ × Bool) := do
  let next : Parser (Option (Option (Phrase τ))) := do
    if !(← look .line false) then pure none
    else if !(← symbol? ",") then pure none
    else if ← both (look .line true) operandHere then do
      let p ← g.expr .line Level.lowest
      pure (some (some p))
    else pure (some none)
  let (more, isOpen) ← series next g.bound
  pure (more.map Phrase.node, !isOpen)

def printingWords : List String := ["in", "is", "and", "or", "if", "as"]

def printing (g : Rules τ) : Parser τ := do
  let start ← here
  keyword "print"
  toToken .line true
  if ← symbol? ">>" then do
    toOperand
    let dest ← g.expr .line Level.lowest
    let (values, newline) ← printValues g
    pure (marked start (.print (some dest.node) values newline))
  else do
    let c ← get
    require ((Quote.atStart? c.rest).isSome || String.ofList (word c.rest) ∉ printingWords)
    let first ← g.expr .line Level.lowest
    let (values, newline) ← printValues g
    pure (marked start (.print none (first.node :: values) newline))

def printsToPlace : Parser Bool := peek (do
  keyword "print"
  if ← look .line false then do
    let shift ← startsWith ">>"
    let assigns ← startsWith ">>="
    pure (shift && !assigns)
  else pure false)

def joiningWords : List String := ["in", "is", "not", "and", "or", "if", "as"]

def executing (g : Rules τ) : Parser τ := do
  let start ← here
  keyword "exec"
  toToken .line true
  let c ← get
  let code ←
    if (Quote.atStart? c.rest).isSome then singleString g
    else do
      require ((← wordHere) ∉ joiningWords)
      let w ← name
      let stop ← index
      pure (.leaf c.place stop (.name w))
  let scopes ←
    if ← both (look .line false) (keyword? "in") then strictList g else pure []
  let nodes := scopes.map Phrase.node
  pure (Builder.dropping (marked start (.exec code.node nodes[0]? nodes[1]?)) (nodes.drop 2))

def typeAlias (g : Rules τ) : Parser τ := do
  let start ← here
  keyword "type"
  toToken .line true
  let left ← g.hint .inner true
  toToken .inner false
  let equals ← equalsHere
  require equals
  symbol "="
  toOperand
  let right ← g.hint .line true
  pure (marked start (.other "type_alias_statement" [left.node, right.node]))

def simpleStatement (g : Rules τ) : Parser τ := do
  let c ← get
  let start := c.place
  if (Quote.atStart? c.rest).isSome then expressionStatement g
  else do
    let w ← wordHere
    let behind (p : Parser τ) : Parser τ := do
      advance w.length
      p
    match w with
    | "pass" => behind (pure (marked start .pass))
    | "break" => behind (pure (marked start .breakLoop))
    | "continue" => behind (pure (marked start .continueLoop))
    | "return" => behind (do
      let value ← optionalExpressions g
      pure (marked start (.returnValue (value.map Phrase.node))))
    | "del" => behind (deletion g start)
    | "raise" => behind (raising g start)
    | "assert" => behind (asserting g start)
    | "global" => behind (do
      let names ← nameList g
      pure (marked start (.globalNames names)))
    | "nonlocal" => behind (do
      let names ← nameList g
      pure (marked start (.nonlocalNames names)))
    | "import" => behind (plainImport g start)
    | "from" => behind (fromImport g start)
    | "print" =>
      if ← printsToPlace then printing g
      else (expressionStatement g).or (whole (printing g))
    | "exec" => (whole (executing g)).or (expressionStatement g)
    | "type" => (whole (typeAlias g)).or (expressionStatement g)
    | _ => expressionStatement g

def statementLine (g : Rules τ) : Parser (List τ) := do
  let first ← simpleStatement g
  let next : Parser (Option (Option τ)) := do
    if !(← look .line false) then pure none
    else do
      symbol ";"
      if ← look .line true then do
        let n ← simpleStatement g
        pure (some (some n))
      else pure (some none)
  let (more, _) ← series next g.bound
  pure (first :: more)

end SourceBlocks.Grammar
