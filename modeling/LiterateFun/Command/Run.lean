import LiterateFun.Command.Arguments
import LiterateFun.Command.Host
import LiterateFun.Compile

/-!
This module contains what commands do on a host.
-/

namespace LiterateFun

def isStandardStream (path : String) : Bool :=
  match path.splitOn "/" with
  | [] => false
  | first :: rest => first = "-" ∧ rest.all fun segment => segment = "" ∨ segment = "."

def inputName (path : String) : String :=
  if isStandardStream path then "<stdin>" else path

def messageAt (path source : String) (span : Option Span) (message : String) : String :=
  match span.bind fun span => Position.shown? source span.start with
  | some p =>
    inputName path ++ ":" ++ Text.decimal p.line ++ ":" ++ Text.decimal p.column ++ ": " ++ message
  | none => inputName path ++ ": " ++ message

def siteMessage (path source kind : String) (x : Identifier) : String :=
  messageAt path source (some x.span) <|
    kind ++ " of `" ++ x.name ++ "` (id " ++ Text.decimal (x.id.getD 0) ++ ")"

namespace Command

variable {m : Type → Type} [Monad m] [Host m]

/-- What a command does. It stops at the first failure, which is a message. -/
abbrev Action (m : Type → Type) (α : Type) := ExceptT String m α

def writeErrorLine (message : String) : m Unit :=
  Host.writeError (message ++ "\n")

def decode (failure : String) (contents : ByteArray) : Action m String :=
  match String.fromUTF8? contents with
  | some text => return text
  | none => throw (failure ++ ": stream did not contain valid UTF-8")

def readSource (path : String) : Action m String := do
  if isStandardStream path then
    decode "Failed to read from stdin" (← ExceptT.lift Host.readInput)
  else
    let failure := "Failed to read `" ++ path ++ "`"
    match ← ExceptT.lift (Host.readFile path) with
    | .ok contents => decode failure contents
    | .error e => throw (failure ++ ": " ++ e.message)

def writeResult (path text : String) : Action m Unit := do
  if isStandardStream path then
    ExceptT.lift (Host.writeOutput text)
  else
    match ← ExceptT.lift (Host.writeFile path text) with
    | .ok () => return
    | .error e => throw ("Failed to write `" ++ path ++ "`: " ++ e.message)

def compiled (path source : String) (result : Except CompileError α) : Action m α :=
  match result with
  | .ok a => return a
  | .error e => throw (messageAt path source e.span? e.message)

def perform : Command → Action m Unit
  | .program input output showTree => do
    let source ← readSource input
    let c ← compiled input source (compile source)
    if showTree then
      ExceptT.lift (Host.writeError c.program.print)
    writeResult output c.code
  | .document input output rendered showSites => do
    let source ← readSource input
    let c ← compiled input source (compileDocument source)
    for w in c.warnings do
      ExceptT.lift <| writeErrorLine <|
        messageAt input source (some w.target.span) ("warning: " ++ w.message)
    if showSites then
      for x in c.sites.definitions do
        ExceptT.lift (writeErrorLine (siteMessage input source "definition" x))
      for x in c.sites.references do
        ExceptT.lift (writeErrorLine (siteMessage input source "reference" x))
    if let some rendered := rendered then
      writeResult rendered c.document.print
    writeResult output c.code

def run (c : Command) : m UInt32 := do
  match ← (perform c).run with
  | .ok () => return 0
  | .error message =>
    writeErrorLine message
    return 1

end Command

namespace Invocation

variable {m : Type → Type} [Monad m] [Host m]

def usage : String :=
  "Usage: literatefun fun INPUT [-o FILE] [--ast]\n" ++
  "       literatefun doc INPUT [-o FILE] [--latex FILE] [--sites]\n\n" ++
  "Compile fun programs and literate fun documents to JavaScript.\n" ++
  "INPUT and FILE are paths, or - for the standard streams.\n"

def perform : Invocation → m UInt32
  | .run command => command.run
  | .help => do
    Host.writeOutput usage
    return 0
  | .version => do
    Host.writeOutput "literatefun 0.1.0\n"
    return 0
  | .refused => do
    Host.writeError usage
    return 2

end Invocation

end LiterateFun
