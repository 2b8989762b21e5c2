/-!
This module contains what commands need of their surroundings: the standard streams and files.
-/

namespace LiterateFun

inductive FileError
  | notFound
  | noDevice
  | notDirectory
  | isDirectory
  | noSpace
  | nameTooLong
  | other (description : String)
deriving DecidableEq, Repr

namespace FileError

def message : FileError → String
  | .notFound => "No such file or directory (os error 2)"
  | .noDevice => "No such device or address (os error 6)"
  | .notDirectory => "Not a directory (os error 20)"
  | .isDirectory => "Is a directory (os error 21)"
  | .noSpace => "No space left on device (os error 28)"
  | .nameTooLong => "File name too long (os error 36)"
  | .other description => description

end FileError

class Host (m : Type → Type) where
  readInput : m ByteArray
  readFile (path : String) : m (Except FileError ByteArray)
  writeOutput (text : String) : m Unit
  writeError (text : String) : m Unit
  writeFile (path text : String) : m (Except FileError Unit)

end LiterateFun
