import SourceBlocks.Block.Group
import SourceBlocks.Report.Failure

namespace SourceBlocks.Report

open Placement (Placed)

def fileField (b : Block) : List (String × Json) :=
  optional "file" (b.text.file.map (fun f => .string f.written))

def orNull (v : Option Json) : Json := v.getD .null

def textFields (t : Text) : List (String × Json) :=
  [("start", position t.start), ("end", position t.stop)]

def statementEntry (s : Statement) : Except Error Json := do
  let kind ← s.kind
  let root ← s.root?
  pure (.object ([("kind", .string kind.name),
    ("node", orNull (root.map (fun r => .string r.kindName)))] ++ textFields s.text ++
    [("text", .string s.text.joined)]))

def statements (b : Block) : Except Error Json := do
  let f ← b.features
  let ss ← b.statements
  let entries ← ss.mapM statementEntry
  pure (.object (header "ok" ++ fileField b ++
    [("flags", .string f.render), ("features", .array (f.names.map .string)),
      ("statements", .array entries)]))

def stringEntry (p : Placed) : Json :=
  .object ([("value", .string (p.stringValue?.getD "")), ("start", orNull (p.start.map position))] ++
    optional "end" (p.stop.map position))

def strings (b : Block) : Except Error Json := do
  let ps ← b.strings
  pure (.object (header "ok" ++ fileField b ++ [("strings", .array (ps.map stringEntry))]))

def isNoLiteral (e : Error) : Bool := match e.root with
  | .literal _ => true
  | .usage _ => true
  | _ => false

def targetName? (s : Statement) : Except Error (Option String) := do
  let r ← s.root?
  pure (r.bind (fun r => (Statement.assignedName? r.node).map Prod.fst))

def assignmentEntry (s : Statement) : Except Error Json := do
  let entry (name : Option String) (rest : List (String × Json)) : Json :=
    .object ([("name", orNull (name.map .string)), ("start", position s.text.start)] ++ rest)
  match s.assignment with
  | .ok (name, v) => pure (entry (some name) [("value", .string v.render)])
  | .error e =>
    if isNoLiteral e then do
      let name ← targetName? s
      pure (entry name [("error", .string e.message)])
    else .error e

def assignmentEntries : List Statement → Except Error (List Json)
  | [] => .ok []
  | s :: ss => do
    if ← s.isAssignment then do
      let e ← assignmentEntry s
      let es ← assignmentEntries ss
      pure (e :: es)
    else assignmentEntries ss

def assignments (b : Block) : Except Error Json := do
  let ss ← b.statements
  let entries ← assignmentEntries ss
  pure (.object (header "ok" ++ fileField b ++ [("assignments", .array entries)]))

def groupEntry (g : Statement.Kind × Block) : Except Error Json := do
  let ss ← g.2.statements
  pure (.object ([("kind", .string g.1.name)] ++ textFields g.2.text ++
    [("statement_count", .number ss.length), ("text", .string g.2.text.joined)]))

def groups (b : Block) : Except Error Json := do
  let gs ← b.groupBy Statement.kind
  let entries ← gs.mapM groupEntry
  pure (.object (header "ok" ++ fileField b ++ [("groups", .array entries)]))

end SourceBlocks.Report
