import SourceBlocks.Grammar.Parameters
import SourceBlocks.Grammar.Suites

namespace SourceBlocks.Grammar

open Lexis Grammar.Parser
open SourceBlocks.Tree (Shape)

variable {τ : Type} [Builder τ]

def optionalTypeParameters (g : Rules τ) : Parser Unit := do
  toToken .inner false
  if ← startsWith "[" then
    let _ ← typeParameters g
    toToken .inner false

def returnType (g : Rules τ) : Parser (Option τ) := do
  toToken .inner false
  if ← symbol? "->" then do
    toOperand
    let p ← g.hint .inner false
    pure (some p.node)
  else pure none

def functionDef (g : Rules τ) (start : Position) (decorators : List τ) (isAsync : Bool) :
    Parser τ := do
  toToken .inner false
  let id ← name
  optionalTypeParameters g
  symbol "("
  toToken .bracket false
  let ps ← parameters g .bracket true ")"
  toToken .bracket false
  symbol ")"
  let returns ← returnType g
  let body ← suite g
  let args := Builder.parameters ps
  pure (marked start (.functionDef id decorators args returns body isAsync))

def classDef (g : Rules τ) (start : Position) (decorators : List τ) : Parser τ := do
  toToken .inner false
  let id ← name
  optionalTypeParameters g
  let bases ← if ← startsWith "(" then arguments g false else pure []
  let body ← suite g
  pure (marked start (.classDef id decorators bases body))

def definition (g : Rules τ) (start : Position) (decorators : List τ) : Parser τ := do
  if ← keyword? "class" then classDef g start decorators
  else if ← keyword? "def" then functionDef g start decorators false
  else do
    keyword "async"
    toToken .inner false
    keyword "def"
    functionDef g start decorators true

def decorator (g : Rules τ) : Parser (Option τ) := do
  if ← symbol? "@" then do
    toOperand
    let p ← g.expr .line Level.lowest
    let more ← look .line false
    require (!more)
    toToken .inner false
    pure (some p.node)
  else pure none

def decorated (g : Rules τ) (start : Position) : Parser τ := do
  let decorators ← collect (decorator g) g.bound
  definition g start decorators

end SourceBlocks.Grammar
