import SourceBlocks.Grammar.Parameters

/-!
Expressions with operators. Each operator has a level; an operand takes in the operators behind it
that bind tighter than the level it is read at.
-/

namespace SourceBlocks.Grammar

open Lexis Grammar.Parser
open SourceBlocks.Tree (Shape)

variable {τ : Type} [Builder τ]

def valueOperators : List (String × Int × Int) :=
  [("**", 21, 20), ("//", 19, 19), ("<<", 17, 17), (">>", 17, 17),
    ("+", 18, 18), ("-", 18, 18), ("*", 19, 19), ("@", 19, 19), ("/", 19, 19), ("%", 19, 19),
    ("|", 14, 14), ("&", 15, 15), ("^", 16, 16)]

def comparisonSigns : List String := ["<=", "==", "!=", ">=", "<>", "<", ">"]

def valueOperatorHere : Parser (Option (String × Int × Int)) := fun c =>
  .ok (valueOperators.find? (fun o => o.1.toList.isPrefixOf c.rest), c)

def wordPair (first second : String) : Parser Unit := do
  keyword first
  toToken .inner false
  keyword second

def comparison? : Parser (Option String) := do
  let shift ← firstHere ["<<", ">>"]
  match shift, ← firstHere comparisonSigns with
  | none, some s => do
    symbol s
    pure (some s)
  | _, _ => do
    let w ← wordHere
    if w = "in" then do
      keyword "in"
      pure (some "in")
    else if w = "is" then do
      let both ← optional (wordPair "is" "not")
      if both.isSome then pure (some "is not")
      else do
        keyword "is"
        pure (some "is")
    else if w = "not" then do
      let both ← optional (wordPair "not" "in")
      pure (both.map (fun _ => "not in"))
    else pure none

def rightOperand (g : Rules τ) (site : Site) (level : Int) : Parser (Phrase τ) := do
  toOperand
  g.expr site level

def comparisons (g : Rules τ) (site : Site) : Parser (List (String × Phrase τ)) := do
  let next : Parser (Option (String × Phrase τ)) := do
    if !(← look site.follow false) then pure none
    else match ← comparison? with
      | none => pure none
      | some op => do
        let p ← rightOperand g site Level.comparison
        pure (some (op, p))
  collect next g.bound

def joined (op : String) (p q : Phrase τ) : Phrase τ :=
  p.extend q.stop (.boolOp op (Builder.operands op p ++ [q.node]))

def conditional (g : Rules τ) (site : Site) (body : Phrase τ) : Parser (Phrase τ) := do
  let test ← rightOperand g .inner Level.lowest
  toToken .inner false
  keyword "else"
  let orelse ← rightOperand g site Level.lambda
  pure (body.extend orelse.stop (.ifExp test.node body.node orelse.node))

def aliased (g : Rules τ) (site : Site) (p : Phrase τ) : Parser (Phrase τ) := do
  toOperand
  let c ← get
  let q ← g.expr site Level.naming
  let text := c.textTo q.stop
  let parts := [p.node, Builder.aliasTarget text q.node]
  pure { p.extend q.stop (.other "as_pattern" parts) with aliased := some text }

def operators (g : Rules τ) (site : Site) (level : Int) : Nat → Phrase τ → Parser (Phrase τ)
  | 0, _ => fail
  | fuel + 1, p => do
    if !(← look site.follow false) then pure p
    else match ← valueOperatorHere with
      | some (op, binds, right) =>
        if binds ≤ level then pure p
        else do
          symbol op
          let q ← rightOperand g site right
          operators g site level fuel (p.extend q.stop (.binOp p.node op q.node))
      | none => do
        let cs ← if level < Level.comparison then comparisons g site else pure []
        match cs.getLast? with
        | some (_, last) =>
          operators g site level fuel
            (p.extend last.stop (.compare p.node (cs.map Prod.fst) (cs.map (fun o => o.2.node))))
        | none => do
          let w ← wordHere
          if w = "and" ∧ level < Level.conjunction then do
            keyword "and"
            let q ← rightOperand g site Level.conjunction
            operators g site level fuel (joined "and" p q)
          else if w = "or" ∧ level < Level.disjunction then do
            keyword "or"
            let q ← rightOperand g site Level.disjunction
            operators g site level fuel (joined "or" p q)
          else if w = "as" ∧ level < Level.naming then do
            keyword "as"
            let q ← aliased g site p
            operators g site level fuel q
          else if w = "if" ∧ level < Level.conditional ∧ site.conditional then do
            keyword "if"
            let q ← conditional g site p
            operators g site level fuel q
          else pure p

def lambda (g : Rules τ) (site : Site) (start : Position) : Parser (Phrase τ) := do
  toToken .inner false
  let ps ← parameters g .inner false ":"
  toToken .inner false
  symbol ":"
  let body ← rightOperand g site Level.lambda
  pure (.leaf start body.stop (.lambda (Builder.parameters ps) body.node))

/-- Words behind `await` that show that it is a name. Only in brackets `for` can be one. -/
def continuingWords (follow : Follow) : List String :=
  ["in", "is", "not", "and", "or", "if", "else", "as"] ++ (if follow = .bracket then ["for"] else [])

def awaitsValue (site : Site) : Parser Bool := do
  if !(← look site.follow true) then pure false
  else do
    let c ← get
    let w ← wordHere
    if (Quote.atStart? c.rest).isNone && w ∈ continuingWords site.follow then pure false
    else if ← startsWith "**" then pure false
    else operandHere

def nameOperand (g : Rules τ) (site : Site) (level : Int) : Parser (Phrase τ) := do
  let p ← nameAtom
  let named : Parser Bool := do
    let more ← look site.follow false
    require more
    symbol? ":="
  let isName := decide (Builder.head p.node = .name)
  let found ← if isName && decide (level < Level.comparison) then optional named else pure none
  if found = some true then do
    let q ← rightOperand g site Level.naming
    pure (p.extend q.stop (.namedExpr p.node q.node))
  else do
    let ts ← trailers g site.follow
    pure (ts.foldl Trailer.apply p)

def awaited (g : Rules τ) (site : Site) (level : Int) (start : Position) : Parser (Phrase τ) := do
  let waits ← peek (do
    keyword "await"
    awaitsValue site)
  if waits then do
    keyword "await"
    let p ← rightOperand g site Level.sign
    pure (.leaf start p.stop (.await p.node))
  else nameOperand g site level

def spreadsWhole (follow : Follow) (ts : List (Trailer τ)) : Parser Bool := do
  if follow = .line && (ts.isEmpty || endsInPart ts) then do
    let more ← look follow false
    pure !more
  else pure false

def operand (g : Rules τ) (site : Site) (level : Int) : Parser (Phrase τ) := do
  let c ← get
  if (Quote.atStart? c.rest).isSome then primary g site.follow
  else match c.rest with
    | [] => fail
    | x :: _ =>
      if x = '-' ∨ x = '+' ∨ x = '~' then do
        advance 1
        let p ← rightOperand g site Level.sign
        pure (.leaf c.place p.stop (.unaryOp (String.ofList [x]) p.node))
      else if x = '*' then starPrimary g site.follow (spreadsWhole site.follow)
      else if isWordStart x then do
        let w ← wordHere
        if w = "not" ∧ level < Level.comparison then do
          advance 3
          let p ← rightOperand g site Level.negation
          pure (.leaf c.place p.stop (.unaryOp "not" p.node))
        else if w = "lambda" ∧ level < Level.comparison then do
          advance 6
          lambda g site c.place
        else if w = "await" then awaited g site level c.place
        else nameOperand g site level
      else primary g site.follow

def expression (g : Rules τ) (site : Site) (level : Int) : Parser (Phrase τ) := do
  let p ← operand g site level
  operators g site level g.bound p

end SourceBlocks.Grammar
