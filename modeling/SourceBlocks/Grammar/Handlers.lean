import SourceBlocks.Grammar.Suites

namespace SourceBlocks.Grammar

open Lexis Grammar.Parser
open SourceBlocks.Tree (Shape)

variable {τ : Type} [Builder τ]

structure Caught (τ : Type) where
  type : Option τ
  name : Option String

def Caught.ofPhrase (p : Phrase τ) : Caught τ := match Builder.unalias p with
  | (type, some _) => ⟨some type, p.aliased.map String.ofList⟩
  | (type, none) => ⟨some type, none⟩

@[simp] theorem Caught.type_ofPhrase (p : Phrase Tree.Node) :
    (Caught.ofPhrase p).type = some (splitName p).1 := by
  rw [Caught.ofPhrase, Abstract.unalias_eq]
  rcases splitName p with ⟨value, _ | name⟩ <;> rfl

/-- What a handler catches, up to its colon. Handlers of groups have to say it, and give names only
behind `as`. -/
def caught (g : Rules τ) (ofGroup : Bool) : Parser (Caught τ) := do
  toToken .inner true
  if !ofGroup && (← startsWith ":") then pure ⟨none, none⟩
  else do
    let first ← g.expr .inner Level.lowest
    toToken .inner false
    let isPair ← if ofGroup then pure false else symbol? ","
    if isPair then do
      toOperand
      let c ← get
      let second ← g.expr .inner Level.lowest
      pure ⟨some first.node, some (String.ofList (c.textTo second.stop))⟩
    else pure (.ofPhrase first)

def handlerWord (ofGroup : Bool) : String := if ofGroup then "except*" else "except"

def handlerHere (c : Cursor) : Option Bool :=
  if String.ofList (word c.rest) ≠ "except" then none
  else some ((handlerWord true).toList.isPrefixOf c.rest)

def handler (g : Rules τ) (e : Expectation) (ofGroup : Bool) : Parser (Option τ) := do
  match ← aheadHere e with
  | .token c =>
    match handlerHere c with
    | none => pure none
    | some kind => do
      set c
      require (kind = ofGroup)
      advance (handlerWord ofGroup).length
      let what ← caught g ofGroup
      let body ← suite g
      pure (some (marked c.place (.exceptHandler what.type what.name body)))
  | _ => pure none

def firstHandler : Expectation := { Expectation.nothing with handler := true }

def furtherHandler : Expectation := { betweenStatements with handler := true }

def tryBlock (g : Rules τ) (start : Position) : Parser τ := do
  let body ← suite g
  match ← aheadHere firstHandler with
  | .token c =>
    match handlerHere c with
    | none => do
      set c
      keyword "finally"
      let final ← suite g
      pure (marked start (.tryBlock body [] [] (Builder.clause "finally" final)))
    | some ofGroup => do
      let first ← handler g firstHandler ofGroup
      let more ← collect (handler g furtherHandler ofGroup) g.bound
      let orelse ← suiteBehind g "else"
      let final ← suiteBehind g "finally"
      pure (marked start (.tryBlock body (first.toList ++ more) orelse final))
  | _ => fail

end SourceBlocks.Grammar
