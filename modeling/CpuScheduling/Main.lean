import CpuScheduling.CommandLine.Session
/-!
The program: arguments, environment and files in, texts and files out.
-/
open CpuScheduling

/-- Whether the system gave an error number, which it may do with either sign. -/
def hasNumber (given number : UInt32) : Bool := given == number || given == 0 - number

/-- A failure of the system in the words of the library. -/
def faultOf (e : IO.Error) : FileTree.Fault :=
  match e with
  | .noFileOrDirectory .. => .notFound
  | .inappropriateType _ given _ => if hasNumber given 21 then .isDirectory else .notDirectory
  | .invalidArgument _ given _ => if hasNumber given 36 then .nameTooLong else .other (toString e)
  | e => .other (toString e)

/-- The text of a file. -/
def readSource (path : String) : IO (Except FileTree.Fault String) := do
  try
    let bytes ← IO.FS.readBinFile path
    match String.fromUTF8? bytes with
    | some text => pure (.ok text)
    | none => pure (.error .notText)
  catch e => pure (.error (faultOf e))

/-- Creates a file with a text. -/
def writeTarget (path text : String) : IO (Except FileTree.Fault Unit) := do
  try
    IO.FS.writeFile path text
    pure (.ok ())
  catch e => pure (.error (faultOf e))

def emit (t : CommandLine.Transcript) : IO UInt32 := do
  (← IO.getStdout).putStr t.stdout
  (← IO.getStderr).putStr t.stderr
  pure t.code.toUInt32

def main (args : List String) : IO UInt32 := do
  let env : CommandLine.Environment :=
    { algorithm := ← IO.getEnv "SCHEDSIM_ALGORITHM"
      logLevel := ← IO.getEnv "RUST_LOG"
      noColor := ← IO.getEnv "NO_COLOR" }
  match CommandLine.Options.read args env.algorithm with
  | .error refusal => emit refusal.transcript
  | .ok options =>
    let transcript := CommandLine.perform options env (← readSource options.file)
    match transcript.file with
    | none => emit transcript
    | some (path, text) => emit (transcript.conclude path (← writeTarget path text))
