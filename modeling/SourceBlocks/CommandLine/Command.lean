import SourceBlocks.Report.Response
import SourceBlocks.Settings

namespace SourceBlocks.CommandLine

inductive Command where
  | statements
  | strings
  | assignments
  | groups
deriving DecidableEq, Repr

namespace Command

def all : List Command := [statements, strings, assignments, groups]

def name : Command → String
  | statements => "statements"
  | strings => "strings"
  | assignments => "assignments"
  | groups => "groups"

def ofName? (name : String) : Option Command := all.find? (·.name = name)

def summary : Command → String
  | statements => "List top-level statements and comment/blank runs"
  | strings => "List string literals in source order"
  | assignments => "Evaluate \x60name = <literal>\x60 assignments"
  | groups => "Group consecutive statements by kind"

def report : Command → Block → Except Error Report.Json
  | statements => Report.statements
  | strings => Report.strings
  | assignments => Report.assignments
  | groups => Report.groups

end Command

structure Outcome where
  exitCode : Nat
  output : String
deriving DecidableEq, Repr

namespace Outcome

def ofFailure (f : Report.Failure) : Outcome := ⟨f.exitCode, f.toJson.render false⟩

end Outcome

def Command.run (c : Command) (settings : Settings) (t : Text) : Outcome :=
  match c.report (.ofText t settings.features.value) with
  | .ok v => ⟨0, v.render settings.compact.value⟩
  | .error e => .ofFailure (.block e)

end SourceBlocks.CommandLine
