import JsonQuery.CommandLine.Command

/-!
# The program

Collects what an answer may depend on, asks `CommandLine.respond`, and writes the answer.
-/

namespace JsonQuery.Program

def readFile (path : String) : IO FileContent := do
  try return .bytes (← IO.FS.readBinFile path)
  catch
    | .noFileOrDirectory .. => return .missing .noSuchFile
    | .inappropriateType (some _) .. => return .missing .notDirectory
    | .invalidArgument .. => return .missing .nameTooLong
    | .permissionDenied .. => return .locked
    | _ => return .unreadable

/-- Reads to the end of a stream. -/
partial def readAll (stream : IO.FS.Stream) (soFar : ByteArray) : IO ByteArray := do
  let chunk ← stream.read 65536
  if chunk.isEmpty then return soFar else readAll stream (soFar ++ chunk)

/-- Standard input, unless the arguments name a file or ask for no evaluation. -/
def readInput (args : List String) : IO ByteArray := do
  match CommandLine.parse args with
  | .run o =>
    if o.input.isSome || o.syntaxOnly then return .empty
    else readAll (← IO.getStdin) .empty
  | _ => return .empty

def respond (args : List String) : IO CommandLine.Response := do
  let home ← IO.getEnv "HOME"
  let found ← ["JQL_MONOCHROME", "JQL_COMPACT", "NO_COLOR"].mapM fun name => do
    return (name, ← IO.getEnv name)
  let files ← (CommandLine.files home args).mapM fun path => do
    return (path, ← readFile path)
  let surroundings : CommandLine.Surroundings := {
    home
    environment := fun name => (found.lookup name).join
    file := fun path => (files.lookup path).getD (.missing .noSuchFile)
    input := ← readInput args
    terminal := ← (← IO.getStdout).isTty }
  return CommandLine.respond surroundings args

end JsonQuery.Program

def main (args : List String) : IO UInt32 := do
  let response ← JsonQuery.Program.respond args
  let output ← IO.getStdout
  output.write response.output
  output.flush
  IO.eprint (if response.code = 2 then JsonQuery.CommandLine.usageText else response.errorText)
  return response.code.toUInt32
