import SourceBlocks.Grammar.Trailers

namespace SourceBlocks.Grammar

open Lexis Grammar.Parser
open SourceBlocks.Tree (Shape)

variable {τ : Type} [Builder τ]

def numeral : Parser (Phrase τ) := do
  let c ← get
  let n := numeralLength c.rest
  require (n ≠ 0)
  advance n
  pure (.leaf c.place (c.index + n) (.num (String.ofList (c.rest.take n))))

def nameAtom : Parser (Phrase τ) := do
  let start ← here
  let w ← name
  let stop ← index
  if w ∈ ["True", "False", "None"] then pure (.leaf start stop (.nameConstant w))
  else pure (.leaf start stop (.name w))

def ellipsis : Parser (Phrase τ) := do
  let start ← here
  symbol "..."
  let stop ← index
  pure (.leaf start stop .ellipsis)

def atom (g : Rules τ) (follow : Follow) : Parser (Phrase τ) := do
  let c ← get
  if (Quote.atStart? c.rest).isSome then stringRun g follow
  else match c.rest with
    | '(' :: _ => parenAtom g follow
    | '[' :: _ => listAtom g
    | '\x7b' :: _ => braceAtom g
    | x :: _ =>
      if isWordStart x then nameAtom
      else if ← startsWith "..." then ellipsis
      else numeral
    | [] => fail

def primary (g : Rules τ) (follow : Follow) : Parser (Phrase τ) := do
  let p ← atom g follow
  let ts ← trailers g follow
  pure (ts.foldl Trailer.apply p)

def endsInPart (ts : List (Trailer τ)) : Bool :=
  match ts.getLast? with
  | some t => !t.isCall
  | none => false

def partPrimary (g : Rules τ) (follow : Follow) : Parser (Phrase τ) := do
  let p ← atom g follow
  let ts ← trailers g follow
  require (endsInPart ts)
  pure (ts.foldl Trailer.apply p)

/-- A spread name with what stands behind it, from the star on. The star belongs to the name, unless
`whole` says that it spreads the value of all that follows. -/
def starPrimary (g : Rules τ) (follow : Follow) (whole : List (Trailer τ) → Parser Bool) :
    Parser (Phrase τ) := do
  let start ← here
  symbol "*"
  toToken .inner true
  let c ← get
  if (Quote.atStart? c.rest).isNone && (c.rest.head?.map isWordStart).getD false then do
    let p ← nameAtom
    let ts ← trailers g follow
    if ← whole ts then do
      let q := ts.foldl Trailer.apply p
      pure (.leaf start q.stop (.starred q.node))
    else pure (ts.foldl Trailer.apply (.leaf start p.stop (.starred p.node)))
  else do
    let p ← partPrimary g follow
    pure (.leaf start p.stop (.starred p.node))

end SourceBlocks.Grammar
