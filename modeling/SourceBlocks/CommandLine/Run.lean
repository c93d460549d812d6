import SourceBlocks.CommandLine.Arguments

namespace SourceBlocks.CommandLine

structure World where
  environment : String → Option String
  standardInput : Except String ByteArray
  file : String → Except String ByteArray

def programName : String := "tugblock"

def programVersion : String := "0.1.0"

def notText : String := "stream did not contain valid UTF-8"

/-! Why a file cannot be read. -/

def missing : String := "No such file or directory (os error 2)"

def forbidden : String := "Permission denied (os error 13)"

def notADirectory : String := "Not a directory (os error 20)"

def isADirectory : String := "Is a directory (os error 21)"

def decode (content : Except String ByteArray) : Except String String := do
  let bytes ← content
  match String.fromUTF8? bytes with
  | some s => pure s
  | none => .error notText

def isStandardInput (file : String) : Bool :=
  Text.FileName.compare ⟨file⟩ ⟨standardInput⟩ = .eq

def World.read (w : World) (file : String) : Except Report.Failure Text :=
  if isStandardInput file then
    match decode w.standardInput with
    | .ok s => .ok (.ofString s)
    | .error cause => .error (.read file cause)
  else
    match decode (w.file file) with
    | .ok s => .ok ((Text.ofString s).named ⟨file⟩)
    | .error cause => .error (.read file cause)

def padRight (width : Nat) (s : String) : String :=
  s ++ String.ofList (List.replicate (width - s.length) ' ')

def table (width : Nat) (rows : List (String × String)) : String :=
  String.join (rows.map (fun r => s!"  {padRight width r.1}  {r.2}\n"))

def helpText : String :=
  "Statement-granular views of Python source\n\n" ++
  s!"Usage: {programName} [OPTIONS] <COMMAND>\n\nCommands:\n" ++
  table 11 (Command.all.map (fun c => (c.name, c.summary)) ++
    [("help", "Print this message or the help of the given subcommand(s)")]) ++
  "\nOptions:\n" ++
  table 27 [
    ("    --flags <FLAGS>", "Compiler flags for parsing: hex (\x600x10000\x60), decimal, or " ++
      "feature names (\x60print_function,division\x60)"),
    ("    --compact", "Emit single-line JSON"),
    ("    --log-level <LOG_LEVEL>", "Log level for tracing output [default: warn] " ++
      "[possible values: trace, debug, info, warn, error]"),
    ("    --log-json", "Write log lines to stderr as JSON"),
    ("-h, --help", "Print help"),
    ("-V, --version", "Print version")]

def Request.outcome (w : World) : Request → Outcome
  | .version => ⟨0, s!"{programName} {programVersion}\n"⟩
  | .help => ⟨0, helpText⟩
  | .invalid => ⟨2, ""⟩
  | .run c file o => match w.read file with
    | .ok t => c.run (Settings.resolve w.environment o.overrides) t
    | .error f => .ofFailure f

def run (w : World) (args : List String) : Outcome := (Request.ofArguments args).outcome w

end SourceBlocks.CommandLine
