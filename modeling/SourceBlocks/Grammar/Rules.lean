import SourceBlocks.Grammar.Abstract
import SourceBlocks.Grammar.Parser

/-!
The rules that other rules refer to, as a value, so that each rule can stand in a module of its
own; they are tied together where a whole source is read.
-/

namespace SourceBlocks.Grammar

structure Site where
  follow : Follow
  conditional : Bool
deriving DecidableEq, Repr

namespace Site

def line : Site := ⟨.line, true⟩

def bracket : Site := ⟨.bracket, true⟩

def inner : Site := ⟨.inner, true⟩

end Site

structure Rules (τ : Type) where
  bound : Nat
  expr : Site → Int → Parser (Phrase τ)
  target : Follow → Parser (Phrase τ)
  hint : Site → Bool → Parser (Phrase τ)
  casePattern : Follow → Parser (Phrase τ)
  block : Parser (List τ)

namespace Rules

def none {τ : Type} (bound : Nat) : Rules τ where
  bound := bound
  expr := fun _ _ => Parser.fail
  target := fun _ => Parser.fail
  hint := fun _ _ => Parser.fail
  casePattern := fun _ => Parser.fail
  block := Parser.fail

end Rules

/-! How tight operators bind. -/
namespace Level

def lowest : Int := -3

def lambda : Int := -2

def conditional : Int := -1

def naming : Int := 0

def disjunction : Int := 10

def conjunction : Int := 11

def negation : Int := 12

def comparison : Int := 13

def sign : Int := 20

end Level

end SourceBlocks.Grammar
