import SourceBlocks.Grammar.Rules
import SourceBlocks.Lexis.StringBody
import SourceBlocks.Literal.Token

/-!
String literals. Literals that follow one another are one literal. A literal with fields to fill in
is kept as text, but its fields have to be expressions.
-/

namespace SourceBlocks.Grammar

open Lexis Grammar.Parser
open SourceBlocks.Tree (Shape)

variable {τ : Type} [Builder τ]

def operandHere : Parser Bool := fun c =>
  let found := match c.rest with
    | [] => false
    | x :: r =>
      isWordStart x || Quote.isMark x || x ∈ ['(', '[', '\x7b', '-', '+', '~', '*'] ||
        decide (numeralLength c.rest ≠ 0) || (x = '.' && ['.', '.'].isPrefixOf r)
  .ok (found, c)

def commaList (g : Rules τ) (site : Site) (first : Phrase τ) : Parser (List (Phrase τ) × Bool) := do
  let next : Parser (Option (Option (Phrase τ))) := do
    if !(← look site.follow false) then pure none
    else if !(← symbol? ",") then pure none
    else if !(← look site.follow true) then pure (some none)
    else if ← operandHere then do
      let p ← g.expr site Level.lowest
      pure (some (some p))
    else pure (some none)
  let (more, isOpen) ← series next g.bound
  pure (first :: more, isOpen || !more.isEmpty)

def expressions (g : Rules τ) (site : Site) : Parser (Phrase τ) := do
  let first ← g.expr site Level.lowest
  let (ps, comma) ← commaList g site first
  if comma then
    let stop := (ps.getLast?.map Phrase.stop).getD first.stop
    pure (first.extend stop (.tuple (ps.map Phrase.node)))
  else pure first

def yieldValue (g : Rules τ) (site : Site) (start : Position) : Parser (Phrase τ) := do
  let bare ← index
  if !(← look site.follow true) then pure (.leaf start bare (.yieldValue none))
  else if ← keyword? "from" then do
    toOperand
    let p ← g.expr site Level.lowest
    pure (.leaf start p.stop (.yieldFrom p.node))
  else if ← operandHere then do
    let p ← expressions g site
    pure (.leaf start p.stop (.yieldValue (some p.node)))
  else pure (.leaf start bare (.yieldValue none))

def orYield (g : Rules τ) (site : Site) (p : Parser (Phrase τ)) : Parser (Phrase τ) := do
  let start ← here
  if ← keyword? "yield" then yieldValue g site start else p

def conversion? : Parser Bool := fun c =>
  match c.rest with
  | '!' :: x :: _ => if 'a' ≤ x ∧ x ≤ 'z' then .ok (true, c.skip 2) else .ok (false, c)
  | _ => .ok (false, c)

def formatText (field : Parser Unit) : Nat → Parser Unit
  | 0 => fail
  | fuel + 1 => do
    match ← next? with
    | none => fail
    | some x =>
      if x = '\x7d' then pure ()
      else if x = '\x7b' then do
        field
        formatText field fuel
      else do
        advance 1
        formatText field fuel

def field (g : Rules τ) : Nat → Parser Unit
  | 0 => fail
  | fuel + 1 => do
    symbol "\x7b"
    toOperand
    let _ ← orYield g .bracket (expressions g .bracket)
    toToken .bracket false
    let _ ← symbol? "="
    toToken .bracket false
    let _ ← conversion?
    toToken .bracket false
    if ← symbol? ":" then formatText (field g fuel) g.bound
    symbol "\x7d"

def bodyRemainder (g : Rules τ) : Parser Unit := do
  let c ← get
  match c.rest with
  | '\\' :: r => advance (1 + escapeLength r)
  | _ => do
    advance (c.rest.takeWhile isGap).length
    let c ← get
    match filler? c.rest with
    | some n => advance n
    | none => field g g.bound

def stringBody (g : Rules τ) (q : Quote) : Nat → Parser Unit
  | 0 => fail
  | fuel + 1 => do
    let c ← get
    if q.fields && (["\x7b\x7b", "\x7d\x7d"].any (fun s => s.toList.isPrefixOf c.rest)) then do
      advance 2
      stringBody g q fuel
    else if q.fields && startsWithChar '\x7b' c.rest then do
      field g g.bound
      stringBody g q fuel
    else match run q false 0 c.rest with
      | .closed n => do
        advance n
        modify (fun c => { c with inFields := false })
      | .content n => do
        advance n
        stringBody g q fuel
      | .stuck => do
        bodyRemainder g
        stringBody g q fuel

def stringPiece (g : Rules τ) : Parser Piece := do
  let c ← get
  match Quote.atStart? c.rest with
  | none => fail
  | some (q, n) => do
    set { c.skip n with inFields := q.fields }
    stringBody g q g.bound
    let d ← get
    pure ⟨c.place, d.place, c.textTo d.index⟩

def stringPhrase (c : Cursor) (stop : Nat) (ps : List Piece) : Phrase τ :=
  ⟨Builder.string c.place (c.textTo stop) ps, c.place, stop, leadOf? ps, false, none⟩

def singleString (g : Rules τ) : Parser (Phrase τ) := do
  let c ← get
  let p ← stringPiece g
  let stop ← index
  pure (stringPhrase c stop [p])

def stringRun (g : Rules τ) (follow : Follow) : Parser (Phrase τ) := do
  let c ← get
  let first ← stringPiece g
  let stop ← index
  let next : Parser (Option (Piece × Nat)) := do
    if !(← look follow true) then pure none
    else do
      let d ← get
      if (Quote.atStart? d.rest).isSome then do
        let p ← stringPiece g
        let i ← index
        pure (some (p, i))
      else pure none
  let more ← collect next g.bound
  let stop := (more.getLast?.map Prod.snd).getD stop
  pure (stringPhrase c stop (first :: more.map Prod.fst))

end SourceBlocks.Grammar
