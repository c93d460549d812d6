import SourceBlocks.Grammar.Targets

namespace SourceBlocks.Grammar

open Lexis Grammar.Parser
open SourceBlocks.Tree (Shape)

variable {τ : Type} [Builder τ]

inductive Assigned (τ : Type) where
  | value (p : Phrase τ)
  | plain (target : Phrase τ) (right : Assigned τ)
  | typed (target type : Phrase τ) (right : Option (Assigned τ))
  | augmented (target : Phrase τ) (op : String) (right : Assigned τ)

namespace Assigned

def node : Assigned τ → τ
  | value p => p.node
  | plain target right => target.opening
      (.other "assignment" [Builder.fill .left target.node, Builder.fill .right right.node])
  | typed target type none => target.opening
      (.other "assignment" [Builder.fill .left target.node, Builder.fill .type type.node])
  | typed target type (some right) => target.opening
      (.other "assignment" [Builder.fill .left target.node, Builder.fill .type type.node,
        Builder.fill .right right.node])
  | augmented target _ right => target.opening
      (.other "augmented_assignment" [Builder.fill .left target.node, Builder.fill .right right.node])

def chain : Assigned τ → List τ × τ
  | plain target right => (target.node :: right.chain.1, right.chain.2)
  | a => ([], a.node)

def statement : Assigned τ → τ
  | value p => p.opening (.expr p.node)
  | plain target right => target.opening (.assign (target.node :: right.chain.1) right.chain.2)
  | typed target type right => target.opening (.annAssign target.node type.node (right.map node))
  | augmented target op right => target.opening (.augAssign target.node op right.node)

end Assigned

def augmentedSigns : List String :=
  ["//=", "**=", ">>=", "<<=", "+=", "-=", "*=", "/=", "@=", "%=", "&=", "^=", "|="]

def untargetedWords : List String := ["not", "lambda", "yield"]

/-- Whether a target ends with the end of the line, unless it is in brackets or one of several. -/
def targetFollow (first : Phrase τ) (opening : Option Char) : Follow :=
  if opening = some '(' ∨ opening = some '[' then
    if Builder.head first.node = .part then .line else .inner
  else .line

/-- Targets with commas between them, up to the sign of the assignment. Behind a comma the line can
end where the targets may still turn out to be values, as on the right of another assignment. -/
def assignmentTargets (g : Rules τ) (isNested : Bool) : Parser (Phrase τ) := do
  let c ← get
  require (String.ofList (word c.rest) ∉ untargetedWords)
  let first ← g.target .line
  toToken (targetFollow first c.rest.head?) false
  if !(← symbol? ",") then pure first
  else do
    let follow := if isNested then Follow.line else .inner
    let item : Parser (Option (Phrase τ)) := do
      toToken follow true
      if ← nextIn ['=', ':', '+', '-', '/', '@', '%', '&', '^', '|', '<', '>'] then pure none
      else do
        let p ← g.target follow
        pure (some p)
    let next : Parser (Option (Option (Phrase τ))) := do
      toToken follow false
      if !(← symbol? ",") then pure none
      else do
        let p ← item
        pure (some p)
    let second ← item
    let (more, _) ← match second with
      | none => pure ([], true)
      | some _ => series next g.bound
    let ps := first :: second.toList ++ more
    let stop := (ps.getLast?.map Phrase.stop).getD first.stop
    pure (first.extend stop (.tuple (ps.map Phrase.node)))

def assignedValue (g : Rules τ) : Parser (Assigned τ) := do
  let p ← orYield g .line (expressions g .line)
  pure (.value p)

def equalsHere : Parser Bool := do
  let equals ← startsWith "="
  let comparison ← startsWith "=="
  pure (equals && !comparison)

def assignment (g : Rules τ) (isNested : Bool) : Nat → Parser (Assigned τ)
  | 0 => fail
  | fuel + 1 => do
    let right : Parser (Assigned τ) := do
      toOperand
      (assignment g true fuel).or (assignedValue g)
    let target ← assignmentTargets g isNested
    if ← equalsHere then do
      symbol "="
      let r ← right
      pure (.plain target r)
    else match ← firstHere augmentedSigns with
      | some op => do
        symbol op
        let r ← right
        pure (.augmented target op r)
      | none => do
        let naming ← startsWith ":="
        require (!naming)
        symbol ":"
        toOperand
        let type ← g.hint .line true
        if ← both (look .line false) equalsHere then do
          symbol "="
          let r ← right
          pure (.typed target type (some r))
        else pure (.typed target type none)

def statementEnd : Parser Unit := do
  if ← look .line false then do
    let found ← startsWith ";"
    require found

def whole (p : Parser τ) : Parser τ := do
  let n ← p
  statementEnd
  pure n

def valueStatement (g : Rules τ) : Parser τ := do
  let start ← here
  if ← keyword? "yield" then do
    let p ← yieldValue g .line start
    pure (p.opening (.expr p.node))
  else do
    let first ← g.expr .line Level.lowest
    let (ps, _) ← commaList g .line first
    match ps with
    | [_] => pure (first.opening (.expr first.node))
    | _ =>
      let tuple := Builder.loose (.part first.start first.lead) (ps.map Phrase.node)
      pure (first.opening (.expr tuple))

def expressionStatement (g : Rules τ) : Parser τ :=
  let assigned : Parser τ := do
    let a ← assignment g false g.bound
    pure a.statement
  (whole assigned).or (whole (valueStatement g))

end SourceBlocks.Grammar
