import SourceBlocks.Lexis.Layout
import SourceBlocks.Lexis.Numeral
import SourceBlocks.Lexis.Word

namespace SourceBlocks.Grammar

open Lexis

abbrev Parser := StateT Cursor (Except Position)

namespace Parser

variable {α : Type}

def fail : Parser α := fun c => .error c.place

/-- Reads with `p`, and from the same cursor with `q` if that gets stuck. If both get stuck, the
farther place counts. -/
def or (p q : Parser α) : Parser α := fun c =>
  match p c with
  | .ok r => .ok r
  | .error e => match q c with
    | .ok r => .ok r
    | .error f => .error (max e f)

def optional (p : Parser α) : Parser (Option α) := fun c =>
  match p c with
  | .ok (a, c) => .ok (some a, c)
  | .error _ => .ok (none, c)

def peek (p : Parser α) : Parser α := fun c =>
  match p c with
  | .ok (a, _) => .ok (a, c)
  | .error e => .error e

def require (b : Bool) : Parser Unit := if b then pure () else fail

def collect (p : Parser (Option α)) : Nat → Parser (List α)
  | 0 => fail
  | fuel + 1 => do
    match ← p with
    | none => pure []
    | some a => do
      let r ← collect p fuel
      pure (a :: r)

/-- Collects what `p` gives, until it gives nothing or a separator with nothing behind it; whether it
was the latter. -/
def series (p : Parser (Option (Option α))) : Nat → Parser (List α × Bool)
  | 0 => fail
  | fuel + 1 => do
    match ← p with
    | none => pure ([], false)
    | some none => pure ([], true)
    | some (some a) => do
      let (r, isOpen) ← series p fuel
      pure (a :: r, isOpen)

def both (p q : Parser Bool) : Parser Bool := do
  if ← p then q else pure false

end Parser

open Grammar.Parser

/-- What may follow behind a phrase besides what continues it: the end of the line, a closing
bracket, or only more of what encloses it. -/
inductive Follow where
  | line
  | bracket
  | inner
deriving DecidableEq, Repr

namespace Follow

def expect (f : Follow) (string : Bool) : Expectation :=
  { Expectation.nothing with
    lineEnd := f = .line
    closing := f = .bracket
    string := string }

end Follow

def aheadHere (e : Expectation) : Parser Ahead := fun c =>
  .ok (ahead e (c.total + 1) c, c)

def look (f : Follow) (string : Bool) : Parser Bool := do
  match ← aheadHere (f.expect string) with
  | .token c => do
    set c
    pure true
  | .lineEnd => pure false
  | _ => fail

def toToken (f : Follow) (string : Bool) : Parser Unit := do
  let found ← look f string
  require found

def toOperand : Parser Unit := toToken .inner true

def wordHere : Parser String := fun c => .ok (String.ofList (word c.rest), c)

def advance (n : Nat) : Parser Unit := fun c => .ok ((), c.skip n)

def startsWith (s : String) : Parser Bool := fun c => .ok (s.toList.isPrefixOf c.rest, c)

def symbol? (s : String) : Parser Bool := do
  if ← startsWith s then
    advance s.length
    pure true
  else pure false

def symbol (s : String) : Parser Unit := do
  let found ← symbol? s
  require found

def keyword? (s : String) : Parser Bool := do
  let w ← wordHere
  if w = s then
    advance s.length
    pure true
  else pure false

def keyword (s : String) : Parser Unit := do
  let found ← keyword? s
  require found

def name : Parser String := do
  let w ← wordHere
  require (!w.isEmpty)
  advance w.length
  pure w

def here : Parser Position := fun c => .ok (c.place, c)

def index : Parser Nat := fun c => .ok (c.index, c)

def next? : Parser (Option Char) := fun c => .ok (c.rest.head?, c)

def firstHere (ss : List String) : Parser (Option String) := fun c =>
  .ok (ss.find? (fun s => s.toList.isPrefixOf c.rest), c)

def nextIn (cs : List Char) : Parser Bool := fun c => .ok (c.rest.head?.any cs.contains, c)

end SourceBlocks.Grammar
