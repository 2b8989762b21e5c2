import LiterateFun.Program.Basic

/-!
This module contains scopes: which names are bound where, and which binding a name finds.
-/

namespace LiterateFun

inductive Entry
  /-- A `:=` further on in the scope introduces the name. -/
  | reserved
  | bound (id : Nat)
deriving DecidableEq, Repr

/-- The names of a scope, with the latest entry of a name first. -/
abbrev Scope := List (String × Entry)

namespace Scope

def find? (s : Scope) (name : String) : Option Entry :=
  s.lookup name

def bind (s : Scope) (name : String) (id : Nat) : Scope :=
  (name, .bound id) :: s

def reserve (s : Scope) (name : String) : Scope :=
  if (s.find? name).isSome then s else (name, .reserved) :: s

def isBound (s : Scope) (name : String) : Bool :=
  match s.find? name with
  | some (.bound _) => true
  | _ => false

end Scope

/-- What surrounds a scope: the scopes around it from the innermost on, and the global names. -/
structure Surroundings where
  scopes : List Scope
  globals : List (String × Nat)

namespace Surroundings

/-- The innermost binding of a name in some scopes. A reservation binds nothing. -/
def innermost? (scopes : List Scope) (name : String) : Option Nat :=
  scopes.findSome? fun scope =>
    match scope.find? name with
    | some (.bound id) => some id
    | _ => none

/-- The binding that a name finds from inside of a scope: the innermost one, else a global one. -/
def find? (s : Surroundings) (scope : Scope) (name : String) : Option Nat :=
  innermost? (scope :: s.scopes) name <|> s.globals.lookup name

def isReserved (s : Surroundings) (scope : Scope) (name : String) : Bool :=
  (scope :: s.scopes).any fun scope => scope.find? name = some .reserved

end Surroundings

end LiterateFun
