import SourceBlocks.Block.Basic
import SourceBlocks.Literal.Quoted

namespace SourceBlocks.Block

/-- The features that are worth telling: those in effect that the source does not switch on by itself,
or those asked for where the source cannot be read. -/
def toldFeatures? (b : Block) : Option Features := match b.features, b.sourceFeatures with
  | .ok f, .ok source => if f = source then none else some f
  | _, _ => if b.inputFeatures.isEmpty then none else some b.inputFeatures

def details (b : Block) : String :=
  Literal.quoteString b.text.joined ++
  ((b.text.file.map (fun f => s!", filename={Literal.quoteString f.written}")).getD "") ++
  (if b.text.start = .start then "" else s!", startpos={b.text.start.render}") ++
  ((b.toldFeatures?.map (fun f => s!", flags={f.render}")).getD "")

def describe (b : Block) : String := s!"PythonBlock({b.details})"

def compareFeatures : Option Features → Option Features → Ordering
  | none, none => .eq
  | none, some _ => .lt
  | some _, none => .gt
  | some f, some g => Ord.compare f.bits.toNat g.bits.toNat

def compare (a b : Block) : Ordering :=
  (a.text.compare b.text).then (compareFeatures a.features.toOption b.features.toOption)

def same (a b : Block) : Bool := compare a b == .eq

structure Fingerprint where
  lines : List (List Char)
  file : Option (List Text.PathPart)
  start : Position
  features : Option Features
deriving DecidableEq

def fingerprint (b : Block) : Fingerprint :=
  ⟨b.text.lines, b.text.file.map Text.FileName.fingerprint, b.text.start, b.features.toOption⟩

end SourceBlocks.Block
