import SourceBlocks.Number.Digits
import SourceBlocks.Text.Blank
import SourceBlocks.Text.Lines

/-!
Language features that a source can switch on, as a set of bits. Bits that belong to no feature are
kept as they are.
-/

namespace SourceBlocks

inductive Feature where
  | nestedScopes
  | generators
  | division
  | absoluteImport
  | withStatement
  | printFunction
  | unicodeLiterals
deriving DecidableEq, Repr

namespace Feature

def all : List Feature :=
  [nestedScopes, generators, division, absoluteImport, withStatement, printFunction,
    unicodeLiterals]

def name : Feature → String
  | nestedScopes => "nested_scopes"
  | generators => "generators"
  | division => "division"
  | absoluteImport => "absolute_import"
  | withStatement => "with_statement"
  | printFunction => "print_function"
  | unicodeLiterals => "unicode_literals"

def bit : Feature → UInt32
  | nestedScopes => 0x10
  | generators => 0x1000
  | division => 0x2000
  | absoluteImport => 0x4000
  | withStatement => 0x8000
  | printFunction => 0x10000
  | unicodeLiterals => 0x20000

def ofName? (name : String) : Option Feature := all.find? (·.name = name)

end Feature

structure Features where
  bits : UInt32
deriving DecidableEq, Repr, Inhabited

namespace Features

def none : Features := ⟨0⟩

def only (f : Feature) : Features := ⟨f.bit⟩

def union (a b : Features) : Features := ⟨a.bits ||| b.bits⟩

instance : OrOp Features := ⟨union⟩

def contains (a b : Features) : Bool := a.bits &&& b.bits == b.bits

def has (a : Features) (f : Feature) : Bool := a.contains (only f)

def isEmpty (a : Features) : Bool := a.bits == 0

def toList (a : Features) : List Feature := Feature.all.filter a.has

def names (a : Features) : List String := a.toList.map Feature.name

def ofList (fs : List Feature) : Features := fs.foldl (fun a f => a ||| only f) none

def render (a : Features) : String :=
  if a.isEmpty then "0" else String.ofList ('0' :: 'x' :: Number.write 16 a.bits.toNat)

inductive SpecError where
  | invalidBits (spec : String)
  | unknownFeature (name : String)
deriving DecidableEq, Repr

def SpecError.message : SpecError → String
  | .invalidBits spec => s!"invalid flag bits '{spec}'"
  | .unknownFeature name => s!"unknown compiler feature '{name}'"

def ofNat? (n : Nat) : Option Features := if n < Nat.pow 2 32 then some ⟨n.toUInt32⟩ else Option.none

def ofNames : List (List Char) → Except SpecError Features
  | [] => .ok none
  | n :: r => match Feature.ofName? (String.ofList n) with
    | Option.none => .error (.unknownFeature (String.ofList n))
    | some f => do
      let rest ← ofNames r
      pure (only f ||| rest)

def specNames (s : List Char) : List (List Char) :=
  ((Text.splitAt ',' s).map Text.trim).filter (fun n => !n.isEmpty)

def orInvalid (spec : List Char) : Option Nat → Except SpecError Features
  | some n => match ofNat? n with
    | some a => .ok a
    | Option.none => .error (.invalidBits (String.ofList spec))
  | Option.none => .error (.invalidBits (String.ofList spec))

def parse (spec : String) : Except SpecError Features :=
  let s := Text.trim spec.toList
  match s with
  | '0' :: 'x' :: hex => orInvalid s (Number.readPositive? 16 hex)
  | '0' :: 'X' :: hex => orInvalid s (Number.readPositive? 16 hex)
  | _ =>
    if !s.isEmpty && s.all Number.isDigit then orInvalid s (Number.read? 10 s)
    else ofNames (specNames s)

end Features

end SourceBlocks
