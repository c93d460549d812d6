import SourceBlocks.Features
import SourceBlocks.Text.Case

namespace SourceBlocks

inductive Origin where
  | default
  | environment
  | commandLine
deriving DecidableEq, Repr

namespace Origin

def rank : Origin → Nat
  | default => 0
  | environment => 1
  | commandLine => 2

end Origin

structure Setting (α : Type) where
  value : α
  origin : Origin
deriving DecidableEq, Repr

namespace Setting

/-- The setting of higher rank, the second one where both have the same. -/
def merge {α : Type} (a b : Setting α) : Setting α :=
  if a.origin.rank ≤ b.origin.rank then b else a

end Setting

structure Overrides where
  features : Option Features
  compact : Option Bool
deriving DecidableEq, Repr

structure Settings where
  features : Setting Features
  compact : Setting Bool
deriving DecidableEq, Repr

namespace Settings

def featuresVariable : String := "TUGBLOCK_FLAGS"

def compactVariable : String := "TUGBLOCK_COMPACT"

def default : Settings := ⟨⟨Features.none, .default⟩, ⟨false, .default⟩⟩

def truth? (raw : String) : Option Bool :=
  let s := String.ofList ((Text.trim raw.toList).map Text.lowercase)
  if s ∈ ["1", "true", "yes", "on"] then some true
  else if s ∈ ["0", "false", "no", "off", ""] then some false
  else none

def environmentFeatures? (lookup : String → Option String) : Option Features :=
  (lookup featuresVariable).bind (fun raw => (Features.parse raw).toOption)

def environmentCompact? (lookup : String → Option String) : Option Bool :=
  (lookup compactVariable).bind truth?

def setFrom {α : Type} (origin : Origin) (s : Setting α) : Option α → Setting α
  | some v => s.merge ⟨v, origin⟩
  | none => s

/-- Reads the environment and then the command line. What the environment holds is passed over
where it cannot be read. -/
def resolve (lookup : String → Option String) (o : Overrides) : Settings where
  features :=
    setFrom .commandLine (setFrom .environment default.features (environmentFeatures? lookup))
      o.features
  compact :=
    setFrom .commandLine (setFrom .environment default.compact (environmentCompact? lookup))
      o.compact

end Settings

end SourceBlocks
