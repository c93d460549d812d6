import SourceBlocks.Error
import SourceBlocks.Report.Json

namespace SourceBlocks.Report

inductive Failure where
  | block (error : Error)
  | read (path cause : String)
  | write (cause : String)
deriving DecidableEq, Repr

def layoutVersion : String := "1"

def place (line column : Nat) : Json := .object [("line", .number line), ("col", .number column)]

def position (p : Position) : Json := place p.line p.column

def optional (name : String) : Option Json → List (String × Json)
  | some v => [(name, v)]
  | none => []

def header (status : String) : List (String × Json) :=
  [("status", .string status), ("schema_version", .string layoutVersion)]

namespace Failure

def message : Failure → String
  | block e => e.message
  | read path cause => s!"failed to read {path}: {cause}"
  | write cause => s!"failed to write response: {cause}"

def exitCode : Failure → Nat
  | block e => e.exitCode
  | read _ _ => 2
  | write _ => 10

def file? : Failure → Option String
  | block (.inFile file _) => some file
  | block _ => none
  | read path _ => some path
  | write _ => none

def place? : Failure → Option Json
  | block e => match e.root with
    | .rejected _ line column => some (place line column)
    | _ => none
  | _ => none

def toJson (f : Failure) : Json :=
  .object (header "error" ++ [("error", .object (
    [("code", .number f.exitCode), ("message", .string f.message)] ++
      optional "file" (f.file?.map .string) ++ optional "location" f.place?))])

end Failure

end SourceBlocks.Report
