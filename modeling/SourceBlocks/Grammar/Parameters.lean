import SourceBlocks.Grammar.Targets
import SourceBlocks.Text.Blank

namespace SourceBlocks.Grammar

open Lexis Grammar.Parser
open SourceBlocks.Tree (Shape)

variable {τ : Type} [Builder τ]

def starName (g : Rules τ) (follow : Follow) (stars : String) : Parser (List Char) := do
  let c ← get
  symbol stars
  toToken .inner false
  let p ← nameAtom
  let ts ← trailers g follow
  require (ts.isEmpty || endsInPart ts)
  let stop := (ts.foldl Trailer.apply p).stop
  pure (c.textTo stop)

def parameterType (g : Rules τ) (site : Site) (typed : Bool) : Parser (Option τ) := do
  toToken site.follow false
  let found ← if typed then symbol? ":" else pure false
  if found then do
    toOperand
    let p ← g.hint site true
    pure (some p.node)
  else pure none

def parameterDefault (g : Rules τ) (site : Site) : Parser (Option τ) := do
  toToken site.follow false
  if ← symbol? "=" then do
    toOperand
    let p ← g.expr site Level.lowest
    pure (some p.node)
  else pure none

def parameter (g : Rules τ) (site : Site) (typed : Bool) : Parser (Parameter τ) := do
  let c ← get
  match c.rest with
  | '*' :: '*' :: _ => do
    let written ← starName g site.follow "**"
    let type ← parameterType g site typed
    pure (.options written type)
  | '*' :: _ => do
    let bare ← peek (do
      symbol "*"
      toToken site.follow false
      nextIn [',', ')', ':'])
    if bare then do
      symbol "*"
      pure .keywordMark
    else do
      let written ← starName g site.follow "*"
      let type ← parameterType g site typed
      pure (.rest written type)
  | '/' :: _ => do
    symbol "/"
    pure .positionalMark
  | '(' :: _ => do
    let p ← tupleTarget g
    let default ← parameterDefault g site
    pure (.named (marked c.place (.arg (String.ofList (c.textTo p.stop)) none)) default)
  | _ => do
    let w ← name
    let type ← parameterType g site typed
    let default ← parameterDefault g site
    pure (.named (marked c.place (.arg w type)) default)

def parameters (g : Rules τ) (site : Site) (typed : Bool) (closing : String) :
    Parser (List (Parameter τ)) := do
  if ← startsWith closing then pure []
  else do
    let first ← parameter g site typed
    let next : Parser (Option (Option (Parameter τ))) := do
      toToken site.follow false
      if !(← symbol? ",") then pure none
      else do
        toToken site.follow false
        if ← startsWith closing then pure (some none)
        else do
          let p ← parameter g site typed
          pure (some (some p))
    let (more, _) ← series next g.bound
    pure (first :: more)

end SourceBlocks.Grammar
