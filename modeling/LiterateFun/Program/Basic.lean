import LiterateFun.Number.Basic
import LiterateFun.Position

/-!
This module contains the trees of programs.
-/

namespace LiterateFun

/-- An occurrence of a name, which either defines the name or refers to it. -/
structure Identifier where
  name : String
  /-- The binding that the occurrence belongs to, once it is resolved. -/
  id : Option Nat := none
  span : Span := {}
deriving DecidableEq, Repr, Inhabited

/-- The binary operators. They share one level of precedence. -/
inductive Operator
  | add
  | subtract
  | multiply
  | divide
deriving DecidableEq, Repr

def Operator.text : Operator → String
  | .add => "+"
  | .subtract => "-"
  | .multiply => "*"
  | .divide => "/"

inductive Expr
  | string (value : String)
  | number (value : Number)
  | identifier (x : Identifier)
  | binary (op : Operator) (left right : Expr)
  | call (callee : Expr) (arguments : List Expr)
  /-- The assignment `target = value` to an existing binding. -/
  | assign (target value : Expr)
  /-- The assignment `x := value` to a new binding of the enclosing block. -/
  | declare (x : Identifier) (value : Expr)
deriving Repr, Inhabited

mutual

inductive Statement
  | expression (value : Expr)
  | return (value : Expr)
  /-- A chain of `else if` is nested: the next `if` is the only statement of the alternative. -/
  | conditional (condition : Expr) (consequent : List Statement)
      (alternative : Option (List Statement))
  | declaration (d : Declaration)
deriving Repr

inductive Declaration
  | class (name : Identifier) (body : List Statement)
  | function (name : Identifier) (parameters : List Identifier) (body : List Statement)
  | method (owner name : Identifier) (parameters : List Identifier) (body : List Statement)
deriving Repr

end

abbrev Block := List Statement

namespace Declaration

def name : Declaration → Identifier
  | .class name _ => name
  | .function name _ _ => name
  | .method _ name _ _ => name

def withName (d : Declaration) (name : Identifier) : Declaration :=
  match d with
  | .class _ body => .class name body
  | .function _ parameters body => .function name parameters body
  | .method owner _ parameters body => .method owner name parameters body

def qualifiedName : Declaration → String
  | .class name _ => name.name
  | .function name _ _ => name.name
  | .method owner name _ _ => owner.name ++ "::" ++ name.name

end Declaration

end LiterateFun
