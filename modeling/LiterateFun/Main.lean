import LiterateFun.Command.LineBuffer
import LiterateFun.Command.Run

/-!
This module contains the command line program.
-/

namespace LiterateFun

partial def readAll (stream : IO.FS.Stream) (contents : ByteArray) : IO ByteArray := do
  let chunk ← stream.read 65536
  if chunk.isEmpty then
    return contents
  else
    readAll stream (contents ++ chunk)

/-- The error of a code of the system. Some calls give the code with a minus sign. -/
def FileError.ofCode (code : UInt32) (description : String) : FileError :=
  match min code (0 - code) with
  | 2 => .notFound
  | 6 => .noDevice
  | 20 => .notDirectory
  | 21 => .isDirectory
  | 28 => .noSpace
  | 36 => .nameTooLong
  | code => .other (description ++ " (os error " ++ toString code ++ ")")

def FileError.ofError : IO.Error → FileError
  | .noFileOrDirectory _ code description => .ofCode code description
  | .inappropriateType _ code description => .ofCode code description
  | .invalidArgument _ code description => .ofCode code description
  | .permissionDenied _ code description => .ofCode code description
  | .resourceExhausted _ code description => .ofCode code description
  | e => .other (toString e)

def attempt (action : IO α) : IO (Except FileError α) := do
  try
    return .ok (← action)
  catch e =>
    return .error (.ofError e)

abbrev System := StateT LineBuffer IO

def passOn (b : LineBuffer) : IO LineBuffer := do
  let stream ← IO.getStdout
  stream.putStr b.written
  stream.flush
  return { b with written := "" }

instance : Host System where
  readInput := do readAll (← IO.getStdin) .empty
  readFile path := attempt (IO.FS.readBinFile path)
  writeOutput text := do set (← passOn ((← get).write text))
  writeError text := IO.eprint text
  writeFile path text := attempt do
    IO.FS.withFile path .write fun handle => do
      handle.putStr text
      handle.flush

def perform (arguments : List String) : System UInt32 :=
  (Invocation.ofArguments arguments).perform

end LiterateFun

def main (arguments : List String) : IO UInt32 := do
  let (code, output) ← (LiterateFun.perform arguments).run {}
  let _ ← LiterateFun.passOn output.flush
  return code
