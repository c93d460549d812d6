import SourceBlocks.Block.Statement

namespace SourceBlocks

inductive Input where
  | text (t : Text)
  | block (b : Block)
  | statement (s : Statement)

structure Changes where
  file : Option Text.FileName
  start : Option Position
  features : Option Features
deriving DecidableEq

namespace Changes

def isEmpty (c : Changes) : Bool := c.file.isNone && c.start.isNone && c.features.isNone

def applyTo (c : Changes) (t : Text) : Text :=
  let t := match c.file with
    | some f => t.named f
    | none => t
  match c.start with
  | some p => t.anchored p
  | none => t

end Changes

namespace Block

def changed (b : Block) (c : Changes) : Except Error Block := do
  let f ← b.features
  pure (ofText (c.applyTo b.text) (c.features.getD .none ||| f))

def ofInput (i : Input) (c : Changes) : Except Error Block := match i with
  | .text t => .ok (ofText (c.applyTo t) (c.features.getD .none))
  | .block b => if c.isEmpty then .ok b else b.changed c
  | .statement s => if c.isEmpty then .ok s.block else s.block.changed c

end Block

namespace Statement

def ofBlock (b : Block) (reading : Nat) : Except Error Statement := do
  let b := b.afterReading reading
  match ← b.statements with
  | [s] => pure s
  | ss =>
    .error (.usage
      s!"Code contains {ss.length} statements instead of exactly 1: {b.describe}")

def ofInput (i : Input) (c : Changes) (reading : Nat) : Except Error Statement := match i with
  | .statement s => if c.isEmpty then .ok s else do
    let b ← Block.ofInput i c
    ofBlock b reading
  | _ => do
    let b ← Block.ofInput i c
    ofBlock b reading

end Statement

end SourceBlocks
