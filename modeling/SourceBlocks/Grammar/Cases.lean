import SourceBlocks.Grammar.Suites

namespace SourceBlocks.Grammar

open Lexis Grammar.Parser
open SourceBlocks.Tree (Shape)

variable {τ : Type} [Builder τ]

def patternList (g : Rules τ) : Parser (List τ) := do
  toOperand
  let first ← g.casePattern .inner
  let next : Parser (Option (Option τ)) := do
    toToken .inner false
    if !(← symbol? ",") then pure none
    else do
      toToken .inner true
      let stops ← startsWith ":"
      let guarded := (← wordHere) = "if"
      if stops || guarded then pure (some none)
      else do
        let p ← g.casePattern .inner
        pure (some (some p.node))
  let (more, _) ← series next g.bound
  pure (first.node :: more)

def caseGuard (g : Rules τ) : Parser (List τ) := do
  toToken .inner false
  let start ← here
  if ← keyword? "if" then do
    toOperand
    let test ← g.expr .inner Level.lowest
    pure [marked start (.other "if_clause" [test.node])]
  else pure []

def caseClause (g : Rules τ) : Parser (Option τ) := do
  match ← aheadHere { Expectation.nothing with shallower := true } with
  | .shallower => do
    closeBlock
    pure none
  | .token c => do
    set c
    keyword "case"
    let patterns ← patternList g
    let guards ← caseGuard g
    let body ← suite g
    pure (some (marked c.place (.other "case_clause" (patterns ++ guards ++ Builder.block body))))
  | _ => fail

def caseClauses (g : Rules τ) : Parser (List τ) := do
  match ← aheadHere { Expectation.nothing with lineEnd := true, deeper := true } with
  | .deeper column => do
    openBlock column
    collect (caseClause g) g.bound
  | .lineEnd => pure []
  | _ => fail

def choice (g : Rules τ) (start : Position) : Parser τ := do
  toToken .line true
  let first ← g.expr .inner Level.lowest
  let (subjects, _) ← commaList g .inner first
  colon
  let cases ← caseClauses g
  pure (marked start (.other "match_statement" (subjects.map Phrase.node ++ Builder.block cases)))

end SourceBlocks.Grammar
