import SourceBlocks.Grammar.Strings

namespace SourceBlocks.Grammar

open Lexis Grammar.Parser
open SourceBlocks.Tree (Shape)

variable {τ : Type} [Builder τ]

def targetList (g : Rules τ) (stopWord : String) : Parser (Phrase τ) := do
  let first ← g.target .inner
  let next : Parser (Option (Option (Phrase τ))) := do
    toToken .inner true
    if !(← symbol? ",") then pure none
    else do
      toToken .inner true
      if (← wordHere) = stopWord then pure (some none)
      else do
        let p ← g.target .inner
        pure (some (some p))
  let (more, isOpen) ← series next g.bound
  if more.isEmpty && !isOpen then pure first
  else
    let ps := first :: more
    let stop := (ps.getLast?.map Phrase.stop).getD first.stop
    pure (first.extend stop (.tuple (ps.map Phrase.node)))

def clauseSite : Site := ⟨.bracket, false⟩

def forHere : Parser Bool := do
  let w ← wordHere
  if w = "for" then pure true
  else if w = "async" then do
    let found ← optional (peek (do
      advance w.length
      toToken .inner false
      keyword "for"))
    pure found.isSome
  else pure false

def clauseValues (g : Rules τ) : Parser τ := do
  let first ← g.expr clauseSite Level.lowest
  let next : Parser (Option (Option (Phrase τ))) := do
    toToken .bracket false
    if !(← symbol? ",") then pure none
    else do
      toToken .bracket true
      if (← forHere) || (← wordHere) = "if" || !(← operandHere) then pure (some none)
      else do
        let p ← g.expr clauseSite Level.lowest
        pure (some (some p))
  let (more, _) ← series next g.bound
  match more with
  | [] => pure first.node
  | ps => pure (Builder.loose (.part first.start first.lead) (first.node :: ps.map Phrase.node))

def clauseCondition (g : Rules τ) : Parser (Option τ) := do
  toToken .bracket false
  if ← keyword? "if" then do
    toOperand
    let p ← g.expr clauseSite Level.lowest
    pure (some p.node)
  else pure none

def forClause (g : Rules τ) : Parser (Option τ) := do
  toToken .bracket false
  if !(← forHere) then pure none
  else do
    let isAsync ← keyword? "async"
    toToken .inner false
    keyword "for"
    toOperand
    let target ← targetList g "in"
    toToken .inner false
    keyword "in"
    toOperand
    let values ← clauseValues g
    let ifs ← collect (clauseCondition g) g.bound
    pure (some (unmarked (.comprehension target.node values ifs isAsync)))

def forClauses (g : Rules τ) : Parser (List τ) := collect (forClause g) g.bound

end SourceBlocks.Grammar
