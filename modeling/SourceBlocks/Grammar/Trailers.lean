import SourceBlocks.Grammar.Collections

namespace SourceBlocks.Grammar

open Lexis Grammar.Parser
open SourceBlocks.Tree (Shape)

variable {τ : Type} [Builder τ]

inductive Trailer (τ : Type) where
  | attr (name : String) (stop : Nat)
  | subscript (index : τ) (stop : Nat)
  | call (args : List τ) (stop : Nat)
deriving Repr

namespace Trailer

def apply (p : Phrase τ) : Trailer τ → Phrase τ
  | attr id stop => p.extend stop (.attr p.node id)
  | subscript i stop => p.extend stop (.subscript p.node i)
  | call args stop => p.extend stop (.call p.node args)

def isCall : Trailer τ → Bool
  | call _ _ => true
  | _ => false

end Trailer

def valueWords : List String := ["True", "False", "None", "not", "lambda"]

def argumentName : Parser String := do
  let w ← name
  require (w ∉ valueWords)
  toToken .bracket false
  let comparison ← startsWith "=="
  require (!comparison)
  symbol "="
  pure w

def groupedArgument (g : Rules τ) : Parser (Phrase τ) := do
  let p ← starGroup g g.bound
  toToken .bracket false
  let comma ← startsWith ","
  let closing ← startsWith ")"
  require (comma || closing)
  pure p

def argument (g : Rules τ) : Parser (Phrase τ) := do
  let start ← here
  if ← symbol? "**" then do
    toOperand
    let p ← g.expr .bracket Level.lowest
    pure { Phrase.leaf start p.stop (.keyword none p.node) with
      node := unmarked (.keyword none p.node) }
  else if ← starHere then starElement g
  else match ← optional argumentName with
    | some id => do
      toOperand
      let p ← g.expr .bracket Level.lowest
      pure { Phrase.leaf start p.stop (.keyword (some id) p.node) with
        node := unmarked (.keyword (some id) p.node) }
    | none => do
      let plain := g.expr .bracket Level.lowest
      if ← startsWith "(" then (groupedArgument g).or plain else plain

def moreArguments (g : Rules τ) : Parser (List (Phrase τ)) := do
  let next : Parser (Option (Option (Phrase τ))) := do
    toToken .bracket false
    if !(← symbol? ",") then pure none
    else do
      toToken .bracket true
      if ← startsWith ")" then pure (some none)
      else do
        let p ← argument g
        pure (some (some p))
  let (more, _) ← series next g.bound
  pure more

def arguments (g : Rules τ) (generators : Bool) : Parser (List τ) := do
  let start ← here
  symbol "("
  toToken .bracket true
  if ← symbol? ")" then pure []
  else if ← symbol? "," then do
    toToken .bracket false
    symbol ")"
    pure []
  else do
    let first ← argument g
    toToken .bracket false
    if generators && (← forHere) then do
      let clauses ← forClauses g
      let p ← close start ")" (.generatorExp first.node clauses)
      pure (Builder.soleArgument p.node)
    else do
      let more ← moreArguments g
      toToken .bracket false
      symbol ")"
      pure (first.node :: more.map Phrase.node)

def sliceBound (g : Rules τ) : Parser (Option τ) := do
  toToken .bracket true
  if ← operandHere then do
    let p ← g.expr .bracket Level.lowest
    pure (some p.node)
  else pure none

def sliceRest (g : Rules τ) (lower : Option τ) : Parser τ := do
  symbol ":"
  let upper ← sliceBound g
  toToken .bracket false
  if ← symbol? ":" then do
    let step ← sliceBound g
    pure (unmarked (.slice lower upper step))
  else pure (unmarked (.slice lower upper none))

def subscriptPart (g : Rules τ) : Parser τ := do
  if ← startsWith ":" then sliceRest g none
  else do
    let p ← g.expr .bracket Level.lowest
    toToken .bracket false
    if ← startsWith ":" then sliceRest g (some p.node) else pure p.node

/-- The parts of a subscript, from its opening bracket to its closing one. More than one part, or one
with a comma, are a tuple. -/
def subscriptIndex (g : Rules τ) : Parser τ := do
  symbol "["
  toToken .inner true
  let first ← subscriptPart g
  let next : Parser (Option (Option τ)) := do
    toToken .bracket false
    if !(← symbol? ",") then pure none
    else do
      toToken .bracket true
      if ← startsWith "]" then pure (some none)
      else do
        let n ← subscriptPart g
        pure (some (some n))
  let (more, isOpen) ← series next g.bound
  toToken .bracket false
  symbol "]"
  if more.isEmpty && !isOpen then pure first
  else pure (Builder.subscripts first more)

def trailer (g : Rules τ) (follow : Follow) : Parser (Option (Trailer τ)) := do
  if !(← look follow false) then pure none
  else if ← symbol? "." then do
    toToken .inner false
    let id ← name
    let stop ← index
    pure (some (.attr id stop))
  else if ← startsWith "[" then do
    let i ← subscriptIndex g
    let stop ← index
    pure (some (.subscript i stop))
  else if ← startsWith "(" then do
    let args ← arguments g true
    let stop ← index
    pure (some (.call args stop))
  else pure none

def trailers (g : Rules τ) (follow : Follow) : Parser (List (Trailer τ)) :=
  collect (trailer g follow) g.bound

end SourceBlocks.Grammar
