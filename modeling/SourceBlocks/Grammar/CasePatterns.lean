import SourceBlocks.Grammar.Atoms

namespace SourceBlocks.Grammar

open Lexis Grammar.Parser
open SourceBlocks.Tree (Shape)

variable {τ : Type} [Builder τ]

/-- A pattern that is not set apart yet. The one that matches everything has no node, and a minus
sign has none either. -/
structure Bare (τ : Type) where
  phrase : Phrase τ
  nodes : List τ

namespace Bare

def ofPhrase (p : Phrase τ) : Bare τ := ⟨p, [p.node]⟩

end Bare

def dottedPattern (g : Rules τ) (follow : Follow) : Parser (Phrase τ) := do
  let start ← here
  let w ← name
  let stop ← index
  let next : Parser (Option (τ × Nat)) := do
    toToken follow false
    if ← symbol? "." then do
      toToken .inner false
      let p ← here
      let w ← name
      let stop ← index
      pure (some (marked p (.name w), stop))
    else pure none
  let more ← collect next g.bound
  let stop := (more.getLast?.map Prod.snd).getD stop
  pure (.leaf start stop (.other "dotted_name" (marked start (.name w) :: more.map Prod.fst)))

def patternGroup (g : Rules τ) (closing : String) (item : Parser (List τ)) :
    Parser (List τ) := do
  toToken .bracket true
  if ← startsWith closing then pure []
  else do
    let first ← item
    let next : Parser (Option (List τ)) := do
      toToken .bracket false
      if !(← symbol? ",") then pure none
      else do
        toToken .bracket true
        if ← startsWith closing then pure (some [])
        else do
          let ns ← item
          pure (some ns)
    let more ← collect next g.bound
    pure (first ++ more.flatten)

def groupItem (g : Rules τ) : Parser (List τ) := do
  let p ← g.casePattern .bracket
  pure [p.node]

def namePattern (g : Rules τ) (follow : Follow) : Parser (Phrase τ) := do
  let p ← dottedPattern g follow
  let more ← look follow false
  if more && (← symbol? "(") then do
    let parts ← patternGroup g ")" (groupItem g)
    let q ← close p.start ")" (.other "class_pattern" (p.node :: parts))
    pure q
  else pure p

def numberPattern (follow : Follow) : Parser (Bare τ) := do
  let start ← here
  if ← symbol? "-" then toToken .inner false
  let p ← numeral
  let more ← look follow false
  if more && (← nextIn ['+', '-']) then do
    advance 1
    toToken .inner false
    let q ← numeral
    pure (.ofPhrase (.leaf start q.stop (.other "complex_pattern" [p.node, q.node])))
  else pure ⟨{ p with start := start }, [p.node]⟩

def starPattern (stars : String) : Parser (Phrase τ) := do
  let start ← here
  symbol stars
  toToken .inner false
  let p ← here
  let w ← name
  let stop ← index
  let nodes := if w = "_" then [] else [marked p (.name w)]
  pure (.leaf start stop (.other "splat_pattern" nodes))

def closedPattern (g : Rules τ) (follow : Follow) (entry : Parser (List τ)) : Parser (Bare τ) := do
  let c ← get
  if (Quote.atStart? c.rest).isSome then do
    let p ← stringRun g follow
    pure (.ofPhrase p)
  else match c.rest with
    | '*' :: '*' :: _ => Bare.ofPhrase <$> starPattern "**"
    | '*' :: _ => Bare.ofPhrase <$> starPattern "*"
    | '[' :: _ => do
      advance 1
      let parts ← patternGroup g "]" (groupItem g)
      Bare.ofPhrase <$> close c.place "]" (.list parts)
    | '(' :: _ => do
      advance 1
      let parts ← patternGroup g ")" (groupItem g)
      Bare.ofPhrase <$> close c.place ")" (.tuple parts)
    | '\x7b' :: _ => do
      advance 1
      let parts ← patternGroup g "\x7d" entry
      Bare.ofPhrase <$> close c.place "\x7d" (.other "dict_pattern" parts)
    | x :: _ =>
      if isWordStart x then do
        let w ← wordHere
        if w = "_" then do
          advance 1
          let stop ← index
          pure ⟨.leaf c.place stop (.other "case_pattern" []), []⟩
        else if w ∈ ["True", "False", "None"] then Bare.ofPhrase <$> nameAtom
        else Bare.ofPhrase <$> namePattern g follow
      else numberPattern follow
    | [] => fail

def barPattern (g : Rules τ) (follow : Follow) (entry : Parser (List τ)) : Parser (Bare τ) := do
  let first ← closedPattern g follow entry
  let next : Parser (Option (Bare τ)) := do
    toToken follow false
    if ← symbol? "|" then do
      toToken .inner true
      let b ← closedPattern g follow entry
      pure (some b)
    else pure none
  let more ← collect next g.bound
  match more.getLast? with
  | none => pure first
  | some last =>
    let nodes := first.nodes ++ more.flatMap Bare.nodes
    pure (.ofPhrase (first.phrase.extend last.phrase.stop (.other "union_pattern" nodes)))

def entryPattern (g : Rules τ) : Nat → Parser (List τ)
  | 0 => fail
  | fuel + 1 => do
    let rest : Parser (List τ) := do
      let p ← (starPattern "**").or (starPattern "*")
      pure [p.node]
    let keyed : Parser (List τ) := do
      let key ← barPattern g .inner (entryPattern g fuel)
      toToken .inner false
      symbol ":"
      toToken .inner true
      let value ← g.casePattern .bracket
      pure (key.nodes ++ [value.node])
    if ← startsWith "*" then rest else keyed

def keywordPattern (g : Rules τ) (follow : Follow) : Parser (Bare τ) := do
  let p ← here
  let w ← name
  require (w ∉ ["_", "True", "False", "None"])
  toToken follow false
  let comparison ← startsWith "=="
  require (!comparison)
  symbol "="
  toToken .inner true
  let b ← barPattern g follow (entryPattern g g.bound)
  pure (.ofPhrase (.leaf p b.phrase.stop
    (.other "keyword_pattern" (marked p (.name w) :: b.nodes))))

def setApart (b : Bare τ) : Phrase τ := b.phrase.extend b.phrase.stop (.other "case_pattern" b.nodes)

def namedPattern (follow : Follow) : Nat → Phrase τ → Parser (Phrase τ)
  | 0, _ => fail
  | fuel + 1, p => do
    toToken follow false
    if ← keyword? "as" then do
      toToken .inner false
      let spot ← here
      let w ← name
      let stop ← index
      let named := p.extend stop (.other "as_pattern" [p.node, marked spot (.name w)])
      namedPattern follow fuel (setApart (.ofPhrase named))
    else pure p

def casePattern (g : Rules τ) (follow : Follow) : Parser (Phrase τ) := do
  let b ← (keywordPattern g follow).or (barPattern g follow (entryPattern g g.bound))
  namedPattern follow g.bound (setApart b)

end SourceBlocks.Grammar
