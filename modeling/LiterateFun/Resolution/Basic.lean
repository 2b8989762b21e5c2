import LiterateFun.Resolution.Error
import LiterateFun.Resolution.Scope

/-!
This module contains name resolution, which gives every identifier of a program the binding that it
belongs to.

A block is resolved in two passes. The first one binds the declarations that stand directly in the
block and reserves the names that its `:=` introduce; the second one goes through its statements
from left to right. The scopes that are open form a stack. After the first failure, no step has an
effect any more but that the open scopes are closed, so that the result shows how far resolution
came.
-/

namespace LiterateFun

namespace Resolution

/-- The state of a resolution that is under way, as far as one scope is concerned. -/
structure State where
  /-- The innermost scope. -/
  scope : Scope
  /-- The id of the next binding. -/
  nextId : Nat
  /-- The identifiers that define a name, in the order in which they were bound. -/
  definitions : List Identifier
  /-- The identifiers that refer to a name, in the order in which they were bound. -/
  references : List Identifier
  /-- The identifiers that were bound although they had a binding already. -/
  rebound : List Identifier
  /-- The first failure. -/
  failure : Option ResolveError
deriving DecidableEq, Repr

/-- The state of a resolution that is under way, with all scopes that are open. -/
structure Environment extends State where
  /-- The scopes around the innermost one, from the inside out. -/
  parents : List Scope
  globals : List (String × Nat)
deriving DecidableEq, Repr

def Environment.surroundings (env : Environment) : Surroundings where
  scopes := env.parents
  globals := env.globals

abbrev Step (α : Type) := StateM State α

abbrev Resolver (α : Type) := StateM Environment α

def fail (e : ResolveError) : Step Unit :=
  modify fun s => if s.failure.isSome then s else { s with failure := some e }

def noteRebound (rebound : List Identifier) (x : Identifier) : List Identifier :=
  if x.id.isSome then rebound ++ [x] else rebound

def introduce (name : String) (x : Identifier) : Step Identifier := fun s =>
  if s.failure.isSome then
    (x, s)
  else
    let bound := { x with id := some s.nextId }
    (bound, { s with
      scope := s.scope.bind name s.nextId
      nextId := s.nextId + 1
      definitions := s.definitions ++ [bound]
      rebound := noteRebound s.rebound x })

def define (name : String) (x : Identifier) : Step Identifier := do
  if (← get).scope.isBound name then
    fail (.duplicateDefinition name x.span)
    return x
  else
    introduce name x

def reserve (name : String) : Step Unit :=
  modify fun s => if s.failure.isSome then s else { s with scope := s.scope.reserve name }

def refer (around : Surroundings) (x : Identifier) : Step Identifier := fun s =>
  if s.failure.isSome then
    (x, s)
  else
    match around.find? s.scope x.name with
    | some id =>
      let bound := { x with id := some id }
      (bound, { s with
        references := s.references ++ [bound]
        rebound := noteRebound s.rebound x })
    | none =>
      let e :=
        if around.isReserved s.scope x.name then
          ResolveError.usedBeforeDeclaration x.name x.span
        else
          ResolveError.undefinedIdentifier x.name x.span
      (x, { s with failure := some e })

namespace Resolver

def here (f : Step α) : Resolver α := fun env =>
  let result := f env.toState
  (result.1, { env with toState := result.2 })

def reference (x : Identifier) : Resolver Identifier := do
  let env ← get
  here (refer env.surroundings x)

def enterScope : Resolver Unit :=
  modify fun env => { env with scope := [], parents := env.scope :: env.parents }

def exitScope : Resolver Unit :=
  modify fun env => { env with scope := env.parents.headD [], parents := env.parents.tail }

/-- Run a step in a scope of its own. The scope is closed also if the step fails. -/
def inScope (f : Resolver α) : Resolver α := do
  enterScope
  let outcome ← f
  exitScope
  return outcome

end Resolver

end Resolution

open Resolution

mutual

def Expr.declaredNames : Expr → List String
  | .string _ => []
  | .number _ => []
  | .identifier _ => []
  | .binary _ left right => left.declaredNames ++ right.declaredNames
  | .call callee arguments => callee.declaredNames ++ Expr.declaredNamesList arguments
  | .assign target value => target.declaredNames ++ value.declaredNames
  | .declare x value => x.name :: value.declaredNames

def Expr.declaredNamesList : List Expr → List String
  | [] => []
  | e :: es => e.declaredNames ++ Expr.declaredNamesList es

end

mutual

def Expr.bindNames : Expr → Resolver Expr
  | .string value => return .string value
  | .number value => return .number value
  | .identifier x => return .identifier (← Resolver.reference x)
  | .binary op left right => do
    let left ← left.bindNames
    let right ← right.bindNames
    return .binary op left right
  | .call callee arguments => do
    let callee ← callee.bindNames
    let arguments ← Expr.bindNamesList arguments
    return .call callee arguments
  | .assign (.identifier x) value => do
    let x ← Resolver.reference x
    let value ← value.bindNames
    return .assign (.identifier x) value
  | .assign target value => do
    Resolver.here (fail .invalidAssignmentTarget)
    return .assign target value
  | .declare x value => do
    let value ← value.bindNames
    let x ← Resolver.here (introduce x.name x)
    return .declare x value

def Expr.bindNamesList : List Expr → Resolver (List Expr)
  | [] => return []
  | e :: es => do
    let e ← e.bindNames
    let es ← Expr.bindNamesList es
    return e :: es

end

def Expr.reserveNames (e : Expr) : Step Unit :=
  e.declaredNames.forM reserve

/--
Bind the declarations that stand directly in a block and reserve the names that its `:=` introduce.
A conditional has a scope of its own for the names of its condition. The result has the names of the
declarations.
-/
def Block.hoist : Block → Step (List Identifier)
  | [] => return []
  | .declaration d :: b => do
    let name ← define d.qualifiedName d.name
    let names ← Block.hoist b
    return name :: names
  | .expression value :: b => do
    value.reserveNames
    Block.hoist b
  | .return value :: b => do
    value.reserveNames
    Block.hoist b
  | .conditional .. :: b => Block.hoist b

def Block.withNames : Block → List Identifier → Block
  | .declaration d :: b, name :: names => .declaration (d.withName name) :: Block.withNames b names
  | s :: b, names => s :: Block.withNames b names
  | [], _ => []

def resolveParameters : List Identifier → Step (List Identifier)
  | [] => return []
  | x :: xs => do
    let x ← define x.name x
    let xs ← resolveParameters xs
    return x :: xs

def Resolution.Resolver.inBlock (b : Block) (statements : Resolver Block) : Resolver Block :=
  Resolver.inScope do
    let names ← Resolver.here b.hoist
    let b ← statements
    return b.withNames names

mutual

def Statement.bindNames : Statement → Resolver Statement
  | .expression value => return .expression (← value.bindNames)
  | .return value => return .return (← value.bindNames)
  | .declaration d => return .declaration (← d.bindNames)
  | .conditional condition consequent none =>
    Resolver.inScope do
      Resolver.here condition.reserveNames
      let condition ← condition.bindNames
      let consequent ← Resolver.inBlock consequent (bindStatements consequent)
      return .conditional condition consequent none
  | .conditional condition consequent (some alternative) =>
    Resolver.inScope do
      Resolver.here condition.reserveNames
      let condition ← condition.bindNames
      let consequent ← Resolver.inBlock consequent (bindStatements consequent)
      let alternative ← Resolver.inBlock alternative (bindStatements alternative)
      return .conditional condition consequent (some alternative)

def Declaration.bindNames : Declaration → Resolver Declaration
  | .class name body => return .class name (← Resolver.inBlock body (bindStatements body))
  | .function name parameters body =>
    Resolver.inScope do
      let parameters ← Resolver.here (resolveParameters parameters)
      let body ← Resolver.inBlock body (bindStatements body)
      return .function name parameters body
  | .method owner name parameters body => do
    let owner ← Resolver.reference owner
    Resolver.inScope do
      let parameters ← Resolver.here (resolveParameters parameters)
      let body ← Resolver.inBlock body (bindStatements body)
      return .method owner name parameters body

def bindStatements : List Statement → Resolver (List Statement)
  | [] => return []
  | s :: b => do
    let s ← s.bindNames
    let b ← bindStatements b
    return s :: b

end

def Block.bindNames (b : Block) : Resolver Block :=
  Resolver.inBlock b (bindStatements b)

def bindDeclarations : List Declaration → Resolver (List Declaration)
  | [] => return []
  | d :: ds => do
    let d ← d.bindNames
    let ds ← bindDeclarations ds
    return d :: ds

end LiterateFun
