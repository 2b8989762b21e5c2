import LiterateFun.Resolution.Stack

/-!
This module contains resolution sessions. A session knows the global names: the builtins and the
declarations that were added to it. Added declarations see each other in whatever order they come,
because their bodies are resolved when the session is finished.
-/

namespace LiterateFun

namespace Resolution

/-- The identifiers of resolved programs, in the order in which they were bound. -/
structure Sites where
  definitions : List Identifier := []
  references : List Identifier := []
  /-- The identifiers that were bound although they had a binding already. -/
  rebound : List Identifier := []
deriving DecidableEq, Repr

@[ext]
structure Session where
  globals : List (String × Nat)
  nextId : Nat
  sites : Sites := {}
  /-- The declarations whose bodies are still to be resolved. -/
  pending : List Declaration := []
  scope : Scope := []
  parents : List Scope := []
  /-- No scope is open between two tasks of a session. -/
  idle : scope = [] ∧ parents = [] := by exact ⟨rfl, rfl⟩

namespace Session

/-- Register the builtins, which have the lowest ids. A name that comes again is left out. -/
def withBuiltins (names : List String) : Session :=
  names.foldl register { globals := [], nextId := 1 }
where
  register (s : Session) (name : String) : Session :=
    if (s.globals.lookup name).isSome then
      s
    else
      { s with globals := (name, s.nextId) :: s.globals, nextId := s.nextId + 1 }

/-- Make a declaration global under its qualified name. The result also has the new id. -/
def add (s : Session) (d : Declaration) : Except ResolveError (Nat × Session) :=
  if (s.globals.lookup d.qualifiedName).isSome then
    .error (.duplicateDefinition d.qualifiedName d.name.span)
  else
    let name := { d.name with id := some s.nextId }
    .ok (s.nextId,
      { s with
        globals := (d.qualifiedName, s.nextId) :: s.globals
        nextId := s.nextId + 1
        sites := { s.sites with
          definitions := s.sites.definitions ++ [name]
          rebound := noteRebound s.sites.rebound d.name }
        pending := s.pending ++ [d.withName name] })

def addAll (s : Session) : List Declaration → Session × Option ResolveError
  | [] => (s, none)
  | d :: ds =>
    match s.add d with
    | .ok (_, s) => s.addAll ds
    | .error e => (s, some e)

def environment (s : Session) : Environment where
  scope := s.scope
  nextId := s.nextId
  definitions := s.sites.definitions
  references := s.sites.references
  rebound := s.sites.rebound
  failure := none
  parents := s.parents
  globals := s.globals

/-- Run a step on the global level. The session goes on with the scopes that the step leaves. -/
def run (s : Session) (f : Resolver α) (hf : f.IsBalanced) : α × Session × Option ResolveError :=
  let result := f s.environment
  let env := result.2
  let t : Session :=
    { globals := env.globals
      nextId := env.nextId
      sites :=
        { definitions := env.definitions, references := env.references, rebound := env.rebound }
      pending := s.pending
      scope := env.scope
      parents := env.parents
      idle := ⟨(hf.scope s.environment).trans s.idle.1, (hf.parents s.environment).trans s.idle.2⟩ }
  (result.1, t, env.failure)

/--
Resolve a block that belongs to no added declaration. After a failure the block is resolved up to
there, and the session goes on.
-/
def resolve (s : Session) (b : Block) : Block × Session × Option ResolveError :=
  s.run b.bindNames b.isBalanced_bindNames

def finish (s : Session) : List Declaration × Except ResolveError Sites :=
  match s.run (bindDeclarations s.pending) (isBalanced_bindDeclarations s.pending) with
  | (ds, t, none) => (ds, .ok t.sites)
  | (ds, _, some e) => (ds, .error e)

end Session

end Resolution

end LiterateFun
