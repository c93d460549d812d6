import SourceBlocks.Grammar.Atoms

/-!
Annotations. A name with brackets behind it is a generic type there, and not a subscript.
-/

namespace SourceBlocks.Grammar

open Lexis Grammar.Parser
open SourceBlocks.Tree (Shape)

variable {τ : Type} [Builder τ]

def plainTypeWords : List String := valueWords ++ ["print", "exec", "async", "await", "match"]

def typeParameters (g : Rules τ) : Parser (Phrase τ) := do
  let start ← here
  symbol "["
  toToken .inner true
  let first ← g.hint .bracket true
  let next : Parser (Option (Option (Phrase τ))) := do
    toToken .bracket false
    if !(← symbol? ",") then pure none
    else do
      toToken .bracket true
      if ← startsWith "]" then pure (some none)
      else do
        let p ← g.hint .bracket true
        pure (some (some p))
  let (more, _) ← series next g.bound
  close start "]" (.other "type_parameter" (first.node :: more.map Phrase.node))

def genericName (follow : Follow) : Parser (Phrase τ) := do
  let c ← get
  require (Quote.atStart? c.rest).isNone
  let p ← nameAtom
  require (String.ofList (c.textTo p.stop) ∉ plainTypeWords)
  toToken follow false
  let brackets ← startsWith "["
  require brackets
  pure p

def starType (stars : String) : Parser (Phrase τ) := do
  let start ← here
  symbol stars
  toToken .inner false
  let spot ← here
  let w ← name
  let stop ← index
  pure (.leaf start stop (.other "splat_type" [marked spot (.name w)]))

def simpleType (g : Rules τ) (site : Site) : Parser (Phrase τ) := do
  if ← startsWith "**" then starType "**"
  else if ← startsWith "*" then starType "*"
  else match ← optional (genericName site.follow) with
    | some p => do
      let q ← typeParameters g
      pure (p.extend q.stop (.other "generic_type" [p.node, q.node]))
    | none => g.expr site Level.lowest

def moreType (g : Rules τ) (site : Site) : Nat → Phrase τ → Parser (Phrase τ)
  | 0, _ => fail
  | fuel + 1, p => do
    if !(← look site.follow false) then pure p
    else if ← symbol? "|" then do
      toOperand
      let q ← simpleType g site
      moreType g site fuel (p.extend q.stop (.other "union_type" [p.node, q.node]))
    else if ← symbol? "." then do
      toToken .inner false
      let spot ← here
      let w ← name
      let stop ← index
      moreType g site fuel (p.extend stop (.other "member_type" [p.node, marked spot (.name w)]))
    else pure p

def hint (g : Rules τ) (site : Site) (colon : Bool) : Parser (Phrase τ) := do
  let first ← simpleType g site
  let p ← moreType g site g.bound first
  let constrained ← if colon then both (look site.follow false) (startsWith ":") else pure false
  if constrained then do
    symbol ":"
    toOperand
    let q ← g.hint site colon
    pure (p.extend q.stop (.other "constrained_type" [p.node, q.node]))
  else pure p

end SourceBlocks.Grammar
