import SourceBlocks.Reading

/-!
Blocks: pieces of source with the features they are read under. A block that is carved out of
another takes its nodes over and is not read again.
-/

namespace SourceBlocks

open Placement (Placed)

structure Root where
  reading : Nat
  index : Nat
  placed : Placed

namespace Root

def isSame (a b : Root) : Bool := a.reading = b.reading && a.index = b.index

def node (r : Root) : Tree.Node := r.placed.node

def kindName (r : Root) : String := r.node.kindName

end Root

inductive Content where
  | unread
  | read (outcome : Except Error (List Root))

structure Block where
  text : Text
  inputFeatures : Features
  content : Content
  /-- The features in effect, where the block was carved under them. -/
  carvedUnder : Option Features
  isSingle : Bool

namespace Block

def ofText (t : Text) (features : Features) : Block := ⟨t, features, .unread, none, false⟩

def carved (t : Text) (roots : List Root) (features : Features) (isSingle : Bool) : Block :=
  ⟨t, features, .read (.ok roots), some features, isSingle⟩

def inFileOf (t : Text) (e : Error) : Error := match t.file with
  | some f => .inFile f.written e
  | none => e

def readRoots (t : Text) (features : Features) (reading : Nat) : Except Error (List Root) := do
  let r ← (Reading.ofText t features).mapError (inFileOf t)
  let p ← (r.placeIn t).mapError (inFileOf t)
  pure (p.children.zipIdx.map (fun c => ⟨reading, c.2, c.1⟩))

def outcome (b : Block) (reading : Nat) : Except Error (List Root) := match b.content with
  | .unread => readRoots b.text b.inputFeatures reading
  | .read o => o

def afterReading (b : Block) (reading : Nat) : Block :=
  { b with content := .read (b.outcome reading) }

def body (b : Block) : Except Error (List Root) := b.outcome 0

def featuresOf (n : Tree.Node) : Features := match n.shape with
  | .importFrom (some source) names _ =>
    if source = Dialect.featureModule then
      .ofList (names.filterMap (fun a => match a.shape with
        | .importAlias id _ _ => Feature.ofName? id
        | _ => none))
    else .none
  | _ => .none

def sourceFeatures (b : Block) : Except Error Features := do
  let roots ← b.body
  pure (roots.foldl (fun f r => f ||| featuresOf r.node) .none)

def features (b : Block) : Except Error Features := match b.carvedUnder with
  | some f => .ok f
  | none => do
    let source ← b.sourceFeatures
    pure (b.inputFeatures ||| source)

def concat (bs : List Block) : Except Error Block :=
  match bs with
  | [] => .error (.usage "cannot concatenate an empty list of blocks")
  | [b] => .ok b
  | b :: rest => do
    let roots ← bs.mapM body
    let f ← b.features
    let chars := b.text.chars ++ rest.flatMap (fun r => r.text.chars)
    pure (carved { b.text with chars := chars } roots.flatten f false)

def strings (b : Block) : Except Error (List Placed) := do
  let roots ← b.body
  pure (roots.flatMap (fun r => r.placed.walk.filter (fun p => p.stringValue?.isSome)))

end Block

end SourceBlocks
