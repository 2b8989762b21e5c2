import LiterateFun.Script.Basic

/-!
This module contains the lowering of programs to scripts.

An expression can have effects anywhere, such as a call whose argument introduces a variable. It
becomes a sequence of statements in the order of its effects and a value that stands for its result.
-/

namespace LiterateFun

mutual

def Expr.declaredIds : Expr → List Nat
  | .string _ => []
  | .number _ => []
  | .identifier _ => []
  | .binary _ left right => left.declaredIds ++ right.declaredIds
  | .call callee arguments => callee.declaredIds ++ Expr.declaredIdsList arguments
  | .assign _ value => value.declaredIds
  | .declare x value => x.id.toList ++ value.declaredIds

def Expr.declaredIdsList : List Expr → List Nat
  | [] => []
  | e :: es => e.declaredIds ++ Expr.declaredIdsList es

end

mutual

def Statement.declaredIds : Statement → List Nat
  | .expression value => value.declaredIds
  | .return value => value.declaredIds
  | .conditional condition consequent none =>
    condition.declaredIds ++ blockDeclaredIds consequent
  | .conditional condition consequent (some alternative) =>
    condition.declaredIds ++ blockDeclaredIds consequent ++ blockDeclaredIds alternative
  | .declaration d => d.declaredIds

def Declaration.declaredIds : Declaration → List Nat
  | .class _ body => blockDeclaredIds body
  | .function _ _ body => blockDeclaredIds body
  | .method _ _ _ body => blockDeclaredIds body

def blockDeclaredIds : List Statement → List Nat
  | [] => []
  | s :: b => s.declaredIds ++ blockDeclaredIds b

end

namespace Lowering

structure State where
  /-- The variables that were declared so far. -/
  declared : List Script.Variable := []
  nextTemporary : Nat := 0
deriving DecidableEq, Repr

abbrev Step (α : Type) := StateM State α

structure Lowered (α : Type) where
  code : List Script.Statement
  value : α

def newTemporary : Step Nat := fun s =>
  (s.nextTemporary, { s with nextTemporary := s.nextTemporary + 1 })

def declareOnce (v : Script.Variable) : Step (List Script.Statement) := fun s =>
  if v ∈ s.declared then
    ([], s)
  else
    ([.declare v], { s with declared := v :: s.declared })

/-- Run a step with no variable declared, and forget the variables that it declares. -/
def inBraces (f : Step α) : Step α := fun s =>
  let (a, t) := f { s with declared := [] }
  (a, { t with declared := s.declared })

end Lowering

open Lowering

/-- The variable of an identifier. It has the id of its binding if that is one of a `:=`. -/
def Identifier.variable (x : Identifier) (ids : List Nat) : Script.Variable where
  name := x.name
  id := x.id.filter (· ∈ ids)

mutual

def Expr.lower (ids : List Nat) : Expr → Step (Lowered Script.Value)
  | .string value => return { code := [], value := .string value }
  | .number value => return { code := [], value := .number value }
  | .identifier x => return { code := [], value := .variable (x.variable ids) }
  | .binary op left right => do
    let left ← left.lower ids
    let right ← right.lower ids
    let index ← newTemporary
    return {
      code := left.code ++ right.code ++ [.binary index op left.value right.value]
      value := .temporary index }
  | .call callee arguments => do
    let callee ← callee.lower ids
    let arguments ← Expr.lowerList ids arguments
    let index ← newTemporary
    return {
      code := callee.code ++ arguments.code ++ [.call index callee.value arguments.value]
      value := .temporary index }
  | .assign (.identifier x) value => do
    let value ← value.lower ids
    let v := x.variable ids
    return { code := value.code ++ [.assign v value.value], value := .variable v }
  | .assign _ value => do
    let value ← value.lower ids
    return { code := value.code ++ [.unassignable value.value], value := value.value }
  | .declare x value => do
    let value ← value.lower ids
    let v := x.variable ids
    let declaration ← declareOnce v
    return { code := value.code ++ declaration ++ [.assign v value.value], value := .variable v }

def Expr.lowerList (ids : List Nat) : List Expr → Step (Lowered (List Script.Value))
  | [] => return { code := [], value := [] }
  | e :: es => do
    let e ← e.lower ids
    let es ← Expr.lowerList ids es
    return { code := e.code ++ es.code, value := e.value :: es.value }

end

namespace Lowering

inductive Piece
  | class (name : String) (body : List Script.Statement)
  | function (name : String) (parameters : List String) (body : List Script.Statement)
  | method (owner name : String) (parameters : List String) (body : List Script.Statement)

namespace Piece

def className? : Piece → Option String
  | .class name _ => some name
  | .function .. => none
  | .method owner _ _ _ => some owner

def constructor? (name : String) : Piece → Option (List Script.Statement)
  | .class name' body => if name' = name then some body else none
  | _ => none

def method? (owner : String) : Piece → Option Script.Method
  | .method owner' name parameters body =>
    if owner' = owner then some (.mk name parameters body) else none
  | _ => none

def function? : Piece → Option Script.Statement
  | .function name parameters body => some (.function name parameters body)
  | _ => none

/-- A class with all of its methods. Of several constructors, the last one counts. -/
def gather (pieces : List Piece) (name : String) : Script.Statement :=
  .class name (pieces.filterMap (constructor? name)).getLast? (pieces.filterMap (method? name))

/--
The statements of the declarations of a block: the classes in the order in which they are first
mentioned, then the functions. A class without a declaration has no constructor.
-/
def arrange (pieces : List Piece) : List Script.Statement :=
  (pieces.filterMap className?).eraseDups.map (gather pieces) ++ pieces.filterMap function?

end Piece

def assemble (pieces : List Piece) (statements : Step (List Script.Statement)) :
    List Script.Statement :=
  Piece.arrange pieces ++ (statements.run {}).1

end Lowering

mutual

/-- Lower a statement. A declaration is lowered ahead of the statements of its block. -/
def Statement.lower (ids : List Nat) : Statement → Step (List Script.Statement)
  | .expression value => do
    let value ← value.lower ids
    return value.code ++ [.value value.value]
  | .return value => do
    let value ← value.lower ids
    return value.code ++ [.return value.value]
  | .conditional condition consequent none => do
    let condition ← inBraces (condition.lower ids)
    return [.conditional condition.code condition.value
      (assemble (lowerDeclarations ids consequent) (lowerStatements ids consequent))
      none]
  | .conditional condition consequent (some alternative) => do
    let condition ← inBraces (condition.lower ids)
    return [.conditional condition.code condition.value
      (assemble (lowerDeclarations ids consequent) (lowerStatements ids consequent))
      (some (assemble (lowerDeclarations ids alternative)
        (lowerStatements ids alternative)))]
  | .declaration _ => return []

def Declaration.lower (ids : List Nat) : Declaration → Piece
  | .class name body =>
    .class name.name (assemble (lowerDeclarations ids body) (lowerStatements ids body))
  | .function name parameters body =>
    .function name.name (parameters.map Identifier.name)
      (assemble (lowerDeclarations ids body) (lowerStatements ids body))
  | .method owner name parameters body =>
    .method owner.name name.name (parameters.map Identifier.name)
      (assemble (lowerDeclarations ids body) (lowerStatements ids body))

def lowerStatements (ids : List Nat) : List Statement → Step (List Script.Statement)
  | [] => return []
  | s :: b => do
    let code ← s.lower ids
    let rest ← lowerStatements ids b
    return code ++ rest

def lowerDeclarations (ids : List Nat) : List Statement → List Piece
  | [] => []
  | .declaration d :: b => d.lower ids :: lowerDeclarations ids b
  | _ :: b => lowerDeclarations ids b

end

def Block.lower (ids : List Nat) (b : Block) : List Script.Statement :=
  assemble (lowerDeclarations ids b) (lowerStatements ids b)

end LiterateFun
