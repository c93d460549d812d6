import SourceBlocks.Grammar.Rules
import SourceBlocks.Text.Blank

/-!
Import statements. Names are read without the blanks in them; the name of the module to import from
is kept as it is written.
-/

namespace SourceBlocks.Grammar

open Lexis Grammar.Parser
open SourceBlocks.Tree (Shape)

variable {τ : Type} [Builder τ]

def dottedName (g : Rules τ) (follow : Follow) : Parser (List Char) := do
  let c ← get
  let _ ← name
  let stop ← index
  let next : Parser (Option Nat) := do
    if !(← look follow false) then pure none
    else if ← symbol? "." then do
      toToken .inner false
      let _ ← name
      let stop ← index
      pure (some stop)
    else pure none
  let more ← collect next g.bound
  pure (c.textTo (more.getLast?.getD stop))

def importedName (g : Rules τ) (follow : Follow) : Parser τ := do
  let start ← here
  let written ← dottedName g follow
  if ← both (look follow false) (keyword? "as") then do
    toToken .inner false
    let asname ← name
    pure (Builder.imported start written (some asname))
  else pure (Builder.imported start written none)

def importedNames (g : Rules τ) (follow : Follow) : Parser (List τ) := do
  let first ← importedName g follow
  let next : Parser (Option (Option τ)) := do
    if !(← look follow false) then pure none
    else if !(← symbol? ",") then pure none
    else if !(← look follow false) then pure (some none)
    else if (← wordHere).isEmpty then pure (some none)
    else do
      let n ← importedName g follow
      pure (some (some n))
  let (more, _) ← series next g.bound
  pure (first :: more)

def importList (g : Rules τ) : Parser (List τ) := do
  if ← symbol? "(" then do
    toToken .inner false
    let names ← importedNames g .bracket
    toToken .bracket false
    symbol ")"
    pure names
  else importedNames g .line

def leadingDots : Nat → Parser Nat
  | 0 => fail
  | fuel + 1 => do
    symbol "."
    let stop ← index
    toToken .inner false
    if ← startsWith "." then leadingDots fuel else pure stop

def importedModule (g : Rules τ) : Parser (Option String × Nat) := do
  if ← startsWith "." then do
    let c ← get
    let stop ← leadingDots g.bound
    let level := ((c.textTo stop).takeWhile (· = '.')).length
    if (← wordHere) = "import" then pure (none, level)
    else do
      let written ← dottedName g .inner
      pure (some (String.ofList written), level)
  else do
    let written ← dottedName g .inner
    pure (some (String.ofList written), 0)

def futureModule : String := "__future__"

def fromImport (g : Rules τ) (start : Position) : Parser τ := do
  toToken .inner false
  let isFuture := (← wordHere) = futureModule
  let (source, level) ←
    if isFuture then do
      keyword futureModule
      pure (some futureModule, 0)
    else importedModule g
  toToken .inner false
  keyword "import"
  toToken .inner false
  if ← startsWith "*" then do
    require (!isFuture)
    let spot ← here
    symbol "*"
    pure (marked start (.importFrom source [Builder.imported spot ['*'] none] level))
  else do
    let names ← importList g
    pure (marked start (.importFrom source names level))

def plainImport (g : Rules τ) (start : Position) : Parser τ := do
  toToken .inner false
  let names ← importedNames g .line
  pure (marked start (.importNames names))

end SourceBlocks.Grammar
