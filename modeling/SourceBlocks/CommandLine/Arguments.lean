import SourceBlocks.CommandLine.Command

/-!
The arguments of the command line. Options can stand before the command or behind it; those behind
it win.
-/

namespace SourceBlocks.CommandLine

structure Options where
  features : Option Features
  compact : Bool
  logLevel : Option String
  logJson : Bool
deriving DecidableEq, Repr

namespace Options

def empty : Options := ⟨none, false, none, false⟩

def merge (a b : Options) : Options where
  features := b.features.or a.features
  compact := a.compact || b.compact
  logLevel := b.logLevel.or a.logLevel
  logJson := a.logJson || b.logJson

def overrides (o : Options) : Overrides where
  features := o.features
  compact := if o.compact then some true else none

end Options

inductive Request where
  | run (command : Command) (file : String) (options : Options)
  | version
  | help
  | invalid
deriving DecidableEq, Repr

def logLevels : List String := ["trace", "debug", "info", "warn", "error"]

def standardInput : String := "-"

def isOptionLike (a : String) : Bool :=
  match a.toList with
  | '-' :: _ :: _ => true
  | _ => false

def Options.setFlag? (o : Options) : String → Option Options
  | "--compact" => if o.compact then none else some { o with compact := true }
  | "--log-json" => if o.logJson then none else some { o with logJson := true }
  | _ => none

def takesValue (name : String) : Bool := name = "--flags" || name = "--log-level"

def Options.setValue? (o : Options) (name value : String) : Option Options :=
  if name = "--flags" then
    if o.features.isSome then none
    else match Features.parse value with
      | .ok f => some { o with features := some f }
      | .error _ => none
  else if name = "--log-level" then
    if o.logLevel.isNone && value ∈ logLevels then some { o with logLevel := some value } else none
  else none

def splitValue? (a : String) : Option (String × String) :=
  let cs := a.toList
  if cs.contains '=' then
    some (String.ofList (cs.takeWhile (· ≠ '=')), String.ofList ((cs.dropWhile (· ≠ '=')).drop 1))
  else none

def readOption? (o : Options) (a : String) (rest : List String) : Option (Options × List String) :=
  match splitValue? a with
  | some (name, value) => (o.setValue? name value).map (fun o => (o, rest))
  | none =>
    if takesValue a then
      match rest with
      | value :: rest =>
        if isOptionLike value then none else (o.setValue? a value).map (fun o => (o, rest))
      | [] => none
    else (o.setFlag? a).map (fun o => (o, rest))

theorem length_le_of_readOption? {o p : Options} {a : String} {rest more : List String}
    (h : readOption? o a rest = some (p, more)) : more.length ≤ rest.length := by
  unfold readOption? at h
  grind [Option.map_eq_some_iff]

def asksByLetter (letter : Char) (a : String) : Bool := ['-', letter].isPrefixOf a.toList

def asksForHelp (a : String) : Bool := a = "--help" || asksByLetter 'h' a

def asksForVersion (a : String) : Bool := a = "--version" || asksByLetter 'V' a

def fileOnly (file : Option String) : List String → Option (Option String)
  | [] => some file
  | a :: rest => if file.isNone && !a.isEmpty then fileOnly (some a) rest else none

def behindCommand (c : Command) (before o : Options) (file : Option String) :
    List String → Request
  | [] => .run c (file.getD standardInput) (before.merge o)
  | a :: rest =>
    if a = "--" then
      match fileOnly file rest with
      | some file => .run c (file.getD standardInput) (before.merge o)
      | none => .invalid
    else if asksForHelp a then .help
    else if isOptionLike a then
      match h : readOption? o a rest with
      | some (o, more) =>
        have := length_le_of_readOption? h
        behindCommand c before o file more
      | none => .invalid
    else if file.isNone && !a.isEmpty then behindCommand c before o (some a) rest
    else .invalid
termination_by args => args.length

def behindHelp : List String → Request
  | [] => .help
  | [a] => if a = "help" || (Command.ofName? a).isSome then .help else .invalid
  | _ => .invalid

def beforeCommand (o : Options) : List String → Request
  | [] => .invalid
  | a :: rest =>
    if asksForVersion a then .version
    else if asksForHelp a then .help
    else if isOptionLike a then
      match h : readOption? o a rest with
      | some (o, more) =>
        have := length_le_of_readOption? h
        beforeCommand o more
      | none => .invalid
    else if a = "help" then behindHelp rest
    else match Command.ofName? a with
      | some c => behindCommand c o .empty none rest
      | none => .invalid
termination_by args => args.length

def Request.ofArguments (args : List String) : Request := beforeCommand .empty args

end SourceBlocks.CommandLine
