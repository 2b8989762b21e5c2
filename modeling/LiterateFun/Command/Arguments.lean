/-!
This module contains the commands and the arguments that ask for them.
-/

namespace LiterateFun

inductive Command
  /-- Compile a program, and show its resolved tree if asked to. -/
  | program (input output : String) (showTree : Bool)
  /--
  Compile the code of a document, write the document with its references resolved if a file for it
  is given, and list all definitions and references if asked to.
  -/
  | document (input output : String) (rendered : Option String) (showSites : Bool)
deriving DecidableEq, Repr

inductive Invocation
  | run (command : Command)
  | help
  | version
  | refused
deriving DecidableEq, Repr

namespace Invocation

inductive Verb
  | program
  | document
deriving DecidableEq, Repr

def Verb.ofText? (text : String) : Option Verb :=
  if text = "fun" then some .program
  else if text = "doc" then some .document
  else none

inductive Switch
  | output
  | rendered
  | tree
  | sites
deriving DecidableEq, Repr

namespace Switch

def takesValue : Switch → Bool
  | .output => true
  | .rendered => true
  | .tree => false
  | .sites => false

def ofName? (verb : Verb) (name : String) : Option Switch :=
  if name = "output" then some .output
  else if verb = .document ∧ name = "latex" then some .rendered
  else if verb = .program ∧ name = "ast" then some .tree
  else if verb = .document ∧ name = "sites" then some .sites
  else none

def ofLetter? (letter : Char) : Option Switch :=
  if letter = 'o' then some .output else none

end Switch

inductive Argument
  | long (name : String) (value : Option String)
  | short (letter : Char) (value : Option String)
  | plain

def Argument.ofText (text : String) : Argument :=
  match text.toList with
  | '-' :: '-' :: rest =>
    let value := match rest.dropWhile (· ≠ '=') with
      | [] => none
      | _ :: value => some (String.ofList value)
    .long (String.ofList (rest.takeWhile (· ≠ '='))) value
  | '-' :: letter :: rest =>
    let value := match rest with
      | [] => none
      | '=' :: value => some (String.ofList value)
      | value => some (String.ofList value)
    .short letter value
  | _ => .plain

def isValue (text : String) : Bool :=
  match Argument.ofText text with
  | .plain => text ≠ ""
  | _ => false

structure Settings where
  input : Option String := none
  values : List (Switch × String) := []

namespace Settings

def withInput (s : Settings) (text : String) : Except Invocation Settings :=
  if s.input.isSome ∨ text = "" then
    .error .refused
  else
    .ok { s with input := some text }

def withSwitch (s : Settings) (switch : Switch) (value : String) : Except Invocation Settings :=
  if (s.values.lookup switch).isSome then
    .error .refused
  else
    .ok { s with values := (switch, value) :: s.values }

def value? (s : Settings) (switch : Switch) : Option String :=
  s.values.lookup switch

def command? (s : Settings) (verb : Verb) : Option Command :=
  s.input.map fun input =>
    let output := (s.value? .output).getD "-"
    match verb with
    | .program => .program input output (s.value? .tree).isSome
    | .document => .document input output (s.value? .rendered) (s.value? .sites).isSome

end Settings

/--
Set a switch to the value in its argument, or else in the next one. The result tells whether the
next argument was used.
-/
def readSwitch (s : Settings) (switch : Switch) (value next : Option String) :
    Except Invocation (Settings × Bool) := do
  if switch.takesValue then
    match value, next with
    | some value, _ =>
      if value = "" then .error .refused else return (← s.withSwitch switch value, false)
    | none, some next =>
      if isValue next then return (← s.withSwitch switch next, true) else .error .refused
    | none, none => .error .refused
  else if value.isSome then
    .error .refused
  else
    return (← s.withSwitch switch "", false)

def readArgument (verb : Verb) (s : Settings) (text : String) (next : Option String) :
    Except Invocation (Settings × Bool) := do
  match Argument.ofText text with
  | .plain => return (← s.withInput text, false)
  | .long name value =>
    if name = "help" ∧ value.isNone then
      .error .help
    else
      match Switch.ofName? verb name with
      | some switch => readSwitch s switch value next
      | none => .error .refused
  | .short letter value =>
    if letter = 'h' then
      .error .help
    else
      match Switch.ofLetter? letter with
      | some switch => readSwitch s switch value next
      | none => .error .refused

/-- Read the arguments of a command from left to right. There are no switches after two dashes. -/
def readSettings (verb : Verb) (s : Settings) : List String → Except Invocation Settings
  | [] => .ok s
  | text :: rest =>
    if text = "--" then
      rest.foldlM Settings.withInput s
    else
      match readArgument verb s text rest.head? with
      | .error e => .error e
      | .ok (s, false) => readSettings verb s rest
      | .ok (s, true) =>
        match rest with
        | [] => .ok s
        | _ :: rest => readSettings verb s rest

def ofHelpArguments : List String → Invocation
  | [] => .help
  | [text] => if (Verb.ofText? text).isSome ∨ text = "help" then .help else .refused
  | _ => .refused

def ofArguments : List String → Invocation
  | [] => .refused
  | text :: rest =>
    match Verb.ofText? text with
    | some verb =>
      match readSettings verb {} rest with
      | .error e => e
      | .ok s => (s.command? verb).elim .refused .run
    | none =>
      match Argument.ofText text with
      | .long "help" none => .help
      | .long "version" none => .version
      | .short 'h' _ => .help
      | .short 'V' _ => .version
      | .plain => if text = "help" then ofHelpArguments rest else .refused
      | _ => .refused

end Invocation

end LiterateFun
