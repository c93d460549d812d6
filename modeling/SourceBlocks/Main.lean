import SourceBlocks.CommandLine.Run

namespace SourceBlocks.CommandLine

partial def readAll (stream : IO.FS.Stream) (read : ByteArray) : IO ByteArray := do
  let more ← stream.read 65536
  if more.isEmpty then pure read else readAll stream (read ++ more)

def reasonOf : IO.Error → String
  | .noFileOrDirectory .. => missing
  | .permissionDenied .. => forbidden
  | .inappropriateType _ code _ => if code = 21 then isADirectory else notADirectory
  | e => toString e

def contentOf (act : IO ByteArray) : IO (Except String ByteArray) := do
  try
    let bytes ← act
    pure (.ok bytes)
  catch e => pure (.error (reasonOf e))

def inputOf : Request → IO (Except String ByteArray)
  | .run _ file _ => do
    if isStandardInput file then do
      let stream ← IO.getStdin
      contentOf (readAll stream .empty)
    else contentOf (IO.FS.readBinFile file)
  | _ => pure (.ok .empty)

def worldFor (args : List String) : IO World := do
  let features ← IO.getEnv Settings.featuresVariable
  let compact ← IO.getEnv Settings.compactVariable
  let input ← inputOf (.ofArguments args)
  pure {
    environment := fun name =>
      if name = Settings.featuresVariable then features
      else if name = Settings.compactVariable then compact
      else none
    standardInput := input
    file := fun _ => input }

end SourceBlocks.CommandLine

open SourceBlocks.CommandLine in
def main (args : List String) : IO UInt32 := do
  let world ← worldFor args
  let outcome := run world args
  IO.print outcome.output
  pure outcome.exitCode.toUInt32
