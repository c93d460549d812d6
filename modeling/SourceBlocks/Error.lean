import SourceBlocks.Position

namespace SourceBlocks

inductive Error where
  | rejected (message : String) (line column : Nat)
  | internal (message : String)
  | usage (message : String)
  | literal (message : String)
  | inFile (file : String) (cause : Error)
deriving DecidableEq, Repr

namespace Error

def rejectedAt (message : String) (p : Position) : Error := rejected message p.line p.column

def root : Error → Error
  | inFile _ cause => cause.root
  | e => e

def message : Error → String
  | rejected m line column => s!"{m} (line {line}, column {column})"
  | internal m => s!"internal error: {m}"
  | usage m => s!"invalid argument: {m}"
  | literal m => m
  | inFile file cause => s!"While parsing {file}: " ++ cause.message

def isRejected (e : Error) : Bool := match e.root with
  | rejected _ _ _ => true
  | _ => false

def isInternal (e : Error) : Bool := match e.root with
  | internal _ => true
  | _ => false

def isUsage (e : Error) : Bool := match e.root with
  | usage _ => true
  | _ => false

def exitCode (e : Error) : Nat := match e.root with
  | usage _ => 2
  | rejected _ _ _ => 3
  | literal _ => 4
  | internal _ => 10
  | inFile _ _ => 10

end Error

end SourceBlocks
