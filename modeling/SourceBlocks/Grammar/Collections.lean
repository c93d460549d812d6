import SourceBlocks.Grammar.Comprehensions

namespace SourceBlocks.Grammar

open Lexis Grammar.Parser
open SourceBlocks.Tree (Shape)

variable {τ : Type} [Builder τ]

def starHere : Parser Bool := fun c =>
  .ok (['*'].isPrefixOf c.rest && !(['*', '*'].isPrefixOf c.rest), c)

def starElement (g : Rules τ) : Parser (Phrase τ) := do
  let start ← here
  symbol "*"
  toOperand
  let p ← g.expr .bracket Level.lowest
  pure (.leaf start p.stop (.starred p.node))

def starGroup (g : Rules τ) : Nat → Parser (Phrase τ)
  | 0 => fail
  | fuel + 1 => do
    let start ← here
    symbol "("
    toToken .bracket true
    let p ← if ← startsWith "(" then starGroup g fuel else starElement g
    toToken .bracket false
    symbol ")"
    let stop ← index
    pure (p.group start stop)

def beforeComma (p : Parser (Phrase τ)) : Parser (Phrase τ) := do
  let a ← p
  toToken .bracket false
  let comma ← startsWith ","
  require comma
  pure a

/-- An element of a collection. An expression with a star is spread as a whole where other elements
follow; at the end the star belongs to its first name if that can be read so. -/
def element (g : Rules τ) (isFirst : Bool) : Parser (Phrase τ) := do
  let plain := g.expr .bracket Level.lowest
  if ← starHere then
    if isFirst then (beforeComma (starElement g)).or (plain.or (starElement g))
    else starElement g
  else if ← startsWith "(" then do
    let start ← here
    match ← optional (beforeComma (starGroup g g.bound)) with
    | some p => pure (.leaf start p.stop (.other "parenthesized_list_splat" [p.node]))
    | none => plain
  else orYield g .bracket plain

def moreElements (g : Rules τ) (closing : String) : Parser (List (Phrase τ) × Bool) := do
  let next : Parser (Option (Option (Phrase τ))) := do
    toToken .bracket false
    if !(← symbol? ",") then pure none
    else do
      toToken .bracket true
      if ← startsWith closing then pure (some none)
      else do
        let p ← element g false
        pure (some (some p))
  let (more, isOpen) ← series next g.bound
  pure (more, isOpen || !more.isEmpty)

def close (start : Position) (closing : String) (shape : Shape τ) : Parser (Phrase τ) := do
  toToken .bracket false
  symbol closing
  let stop ← index
  pure (.leaf start stop shape)

def listAtom (g : Rules τ) : Parser (Phrase τ) := do
  let start ← here
  symbol "["
  toToken .bracket true
  if ← startsWith "]" then close start "]" (.list [])
  else do
    let first ← element g true
    toToken .bracket false
    if ← forHere then do
      let clauses ← forClauses g
      close start "]" (.listComp first.node clauses)
    else do
      let (more, _) ← moreElements g "]"
      close start "]" (.list (first.node :: more.map Phrase.node))

def entryValue (g : Rules τ) : Parser τ := do
  toOperand
  let p ← g.expr .bracket Level.lowest
  pure p.node

def entry (g : Rules τ) : Parser (Option τ × τ) := do
  if ← symbol? "**" then do
    let value ← entryValue g
    pure (none, value)
  else do
    let key ← g.expr .inner Level.lowest
    toToken .inner false
    symbol ":"
    let value ← entryValue g
    pure (some key.node, value)

def moreEntries (g : Rules τ) : Parser (List (Option τ × τ)) := do
  let next : Parser (Option (Option (Option τ × τ))) := do
    toToken .bracket false
    if !(← symbol? ",") then pure none
    else do
      toToken .bracket true
      if ← startsWith "\x7d" then pure (some none)
      else do
        let e ← entry g
        pure (some (some e))
  let (more, _) ← series next g.bound
  pure more

def braceAtom (g : Rules τ) : Parser (Phrase τ) := do
  let start ← here
  symbol "\x7b"
  toToken .bracket true
  if ← startsWith "\x7d" then close start "\x7d" (.dict [])
  else if ← symbol? "," then close start "\x7d" (.dict [])
  else if ← startsWith "**" then do
    let first ← entry g
    let more ← moreEntries g
    close start "\x7d" (.dict (first :: more))
  else do
    let first ← element g true
    toToken .bracket false
    if ← symbol? ":" then do
      let value ← entryValue g
      toToken .bracket false
      if ← forHere then do
        let clauses ← forClauses g
        close start "\x7d" (.dictComp first.node value clauses)
      else do
        let more ← moreEntries g
        close start "\x7d" (.dict ((some first.node, value) :: more))
    else if ← forHere then do
      let clauses ← forClauses g
      close start "\x7d" (.setComp first.node clauses)
    else do
      let (more, _) ← moreElements g "\x7d"
      close start "\x7d" (.set (first.node :: more.map Phrase.node))

def loneStar (g : Rules τ) (follow : Follow) (start : Position) : Parser (Phrase τ) := do
  let asTuple : Parser (Phrase τ) := do
    let p ← starElement g
    close start ")" (.tuple [p.node])
  let endsLine : Parser (Phrase τ) := do
    let p ← asTuple
    let more ← look follow false
    require (!more)
    pure p
  let grouped : Parser (Phrase τ) := do
    let p ← g.expr .bracket Level.lowest
    toToken .bracket false
    symbol ")"
    let stop ← index
    pure (p.group start stop)
  if follow = .line then endsLine.or (grouped.or asTuple) else grouped.or asTuple

def parenAtom (g : Rules τ) (follow : Follow) : Parser (Phrase τ) := do
  let start ← here
  symbol "("
  toToken .bracket true
  if ← startsWith ")" then close start ")" (.tuple [])
  else do
    let c ← get
    let isStar ← starHere
    let first ← element g true
    toToken .bracket false
    if ← forHere then do
      let clauses ← forClauses g
      close start ")" (.generatorExp first.node clauses)
    else do
      let (more, comma) ← moreElements g ")"
      if comma then close start ")" (.tuple (first.node :: more.map Phrase.node))
      else if isStar then do
        set c
        loneStar g follow start
      else do
        toToken .bracket false
        symbol ")"
        let stop ← index
        pure (first.group start stop)

end SourceBlocks.Grammar
