import LiterateFun.Command.Host
import LiterateFun.Command.LineBuffer

/-!
This module contains workspaces, which are hosts without effects: a working directory with files in
it, the devices of the system, and the standard streams. A path is followed name by name from the
working directory or, if it starts with a slash, from the root.
-/

namespace LiterateFun

abbrev Location := List String

inductive Device
  /-- It is empty, and what is written to it is lost. -/
  | null
  /-- It has no room for what is written to it. -/
  | full
  /-- It is not connected. -/
  | terminal
  | standardInput
  | standardOutput
  | standardError
deriving DecidableEq, Repr

def Device.locations : List (Location × Device) :=
  [(["dev", "null"], .null), (["dev", "full"], .full), (["dev", "tty"], .terminal),
   (["dev", "stdin"], .standardInput), (["dev", "stdout"], .standardOutput),
   (["dev", "stderr"], .standardError), (["dev", "fd", "0"], .standardInput),
   (["dev", "fd", "1"], .standardOutput), (["dev", "fd", "2"], .standardError)]

inductive Node
  | directory
  | file (contents : ByteArray)
  | device (d : Device)

structure Path where
  isAbsolute : Bool
  names : List String
  /-- A path that ends with a slash leads to a directory only. -/
  endsWithSlash : Bool
deriving DecidableEq, Repr

namespace Path

def maxSize : Nat := 4095

def maxNameSize : Nat := 255

def ofText (text : String) : Except FileError Path :=
  if maxSize < Text.byteSize text.toList then
    .error .nameTooLong
  else
    .ok {
      isAbsolute := text.toList.head? = some '/'
      names := (text.splitOn "/").filter (· ≠ "")
      endsWithSlash := text.toList.getLast? = some '/' }

end Path

structure Workspace where
  input : ByteArray
  files : List (Location × ByteArray) := []
  output : LineBuffer := {}
  error : String := ""

namespace Workspace

def directory : Location :=
  ["tmp", "workspace"]

def ofFiles (input : ByteArray) (files : List (String × ByteArray)) : Workspace where
  input := input
  files := files.map fun (path, contents) =>
    (directory ++ (path.splitOn "/").filter (· ≠ ""), contents)

def otherDirectories : List Location :=
  directory :: ["bin", "etc", "home", "lib", "mnt", "opt", "proc", "root", "run", "sbin", "srv",
    "sys", "usr", "var"].map ([·])

/-- A directory is there if it is on the way to a file, a device or another directory. -/
def hasDirectory (w : Workspace) (location : Location) : Bool :=
  (otherDirectories ++ w.files.map Prod.fst ++ Device.locations.map Prod.fst).any
    location.isPrefixOf

def node? (w : Workspace) (location : Location) : Option Node :=
  match w.files.lookup location, Device.locations.lookup location with
  | some contents, _ => some (.file contents)
  | none, some d => some (.device d)
  | none, none => if w.hasDirectory location then some .directory else none

/-- Follow a name from a directory. What the name leads to need not be there. -/
def follow (w : Workspace) (location : Location) (name : String) : Except FileError Location :=
  match w.node? location with
  | none => .error .notFound
  | some .directory =>
    if name = "." then .ok location
    else if name = ".." then .ok location.dropLast
    else if Path.maxNameSize < Text.byteSize name.toList then .error .nameTooLong
    else .ok (location ++ [name])
  | some _ => .error .notDirectory

def locate (w : Workspace) (isAbsolute : Bool) (names : List String) : Except FileError Location :=
  names.foldlM w.follow (if isAbsolute then [] else directory)

def readDevice (w : Workspace) : Device → Except FileError ByteArray
  | .terminal => .error .noDevice
  | .standardInput => .ok w.input
  | _ => .ok .empty

def read (w : Workspace) (path : String) : Except FileError ByteArray := do
  let p ← Path.ofText path
  match w.node? (← w.locate p.isAbsolute p.names) with
  | none => .error .notFound
  | some .directory => .error .isDirectory
  | some (.file contents) => if p.endsWithSlash then .error .notDirectory else .ok contents
  | some (.device d) => if p.endsWithSlash then .error .notDirectory else w.readDevice d

def writeDevice (w : Workspace) (text : String) : Device → Except FileError Workspace
  | .null => .ok w
  | .full => if text = "" then .ok w else .error .noSpace
  | .terminal => .error .noDevice
  | .standardInput => .ok w
  | .standardOutput => .ok { w with output := w.output.pass text }
  | .standardError => .ok { w with error := w.error ++ text }

def write (w : Workspace) (path text : String) : Except FileError Workspace := do
  let p ← Path.ofText path
  match p.names.getLast? with
  | none => .error .isDirectory
  | some name =>
    let parent ← w.follow (← w.locate p.isAbsolute p.names.dropLast) "."
    if p.endsWithSlash ∨ name = "." ∨ name = ".." then
      .error .isDirectory
    else
      let location ← w.follow parent name
      match w.node? location with
      | some .directory => .error .isDirectory
      | some (.device d) => w.writeDevice text d
      | _ =>
        let others := w.files.filter fun file => file.1 ≠ location
        .ok { w with files := (location, text.toUTF8) :: others }

instance : Host (StateM Workspace) where
  readInput := return (← get).input
  readFile path := return (← get).read path
  writeOutput text := modify fun w => { w with output := w.output.write text }
  writeError text := modify fun w => { w with error := w.error ++ text }
  writeFile path text := do
    match (← get).write path text with
    | .ok w => do
      set w
      return .ok ()
    | .error e => return .error e

end Workspace

end LiterateFun
