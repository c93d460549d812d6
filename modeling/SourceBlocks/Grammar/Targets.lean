import SourceBlocks.Grammar.Atoms

/-!
What can be assigned to: names, attributes and subscripts, spread ones, and tuples and lists of
targets. Brackets around a target make a tuple.
-/

namespace SourceBlocks.Grammar

open Lexis Grammar.Parser
open SourceBlocks.Tree (Shape)

variable {τ : Type} [Builder τ]

def targetGroup (g : Rules τ) (opening closing : String) (shape : List τ → Shape τ) :
    Parser (Phrase τ) := do
  let start ← here
  symbol opening
  toToken .bracket true
  if ← startsWith closing then close start closing (shape [])
  else do
    let first ← g.target .bracket
    let next : Parser (Option (Option (Phrase τ))) := do
      toToken .bracket false
      if !(← symbol? ",") then pure none
      else do
        toToken .bracket true
        if ← startsWith closing then pure (some none)
        else do
          let p ← g.target .bracket
          pure (some (some p))
    let (more, _) ← series next g.bound
    close start closing (shape (first.node :: more.map Phrase.node))

def tupleTarget (g : Rules τ) : Parser (Phrase τ) := targetGroup g "(" ")" .tuple

def listTarget (g : Rules τ) : Parser (Phrase τ) := targetGroup g "[" "]" .list

def noTrailer (follow : Follow) : Parser Unit := do
  if ← look follow false then do
    let found ← nextIn ['.', '[', '(']
    require (!found)

def wholeGroup (follow : Follow) (p : Parser (Phrase τ)) : Parser (Phrase τ) := do
  let a ← p
  noTrailer follow
  pure a

def simpleTarget (g : Rules τ) (follow : Follow) : Parser (Phrase τ) := do
  let p ← atom g follow
  let ts ← trailers g follow
  if Builder.head p.node = .name then require (ts.isEmpty || endsInPart ts)
  else require (endsInPart ts)
  pure (ts.foldl Trailer.apply p)

def starTarget (g : Rules τ) (follow : Follow) : Parser (Phrase τ) := do
  let p ← starPrimary g follow (fun _ => pure false)
  if Builder.head p.node = .call then fail else pure p

def target (g : Rules τ) (follow : Follow) : Parser (Phrase τ) := do
  let c ← get
  match c.rest with
  | '*' :: _ => starTarget g follow
  | '(' :: _ => (wholeGroup follow (tupleTarget g)).or (simpleTarget g follow)
  | '[' :: _ => (wholeGroup follow (listTarget g)).or (simpleTarget g follow)
  | _ => simpleTarget g follow

end SourceBlocks.Grammar
