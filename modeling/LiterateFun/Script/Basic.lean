import LiterateFun.Program.Basic

/-!
This module contains the trees of generated scripts. The statements of a script have at most one
effect each, and they keep the results of operations and calls in numbered temporaries.
-/

namespace LiterateFun.Script

/-- A variable of a script. Only variables that stand for a `:=` have an id. -/
structure Variable where
  name : String
  id : Option Nat
deriving DecidableEq, Repr

inductive Value
  | string (value : String)
  | number (value : Number)
  | variable (v : Variable)
  | temporary (index : Nat)
deriving DecidableEq, Repr

mutual

inductive Statement
  /-- A new temporary for the result of an operation. -/
  | binary (index : Nat) (op : Operator) (left right : Value)
  /-- A new temporary for the result of a call. -/
  | call (index : Nat) (callee : Value) (arguments : List Value)
  /-- A new variable. -/
  | declare (v : Variable)
  | assign (v : Variable) (value : Value)
  /-- An assignment to something else than a variable, which has no text. -/
  | unassignable (value : Value)
  | value (value : Value)
  | return (value : Value)
  /-- The statements that compute the condition stand in braces together with the conditional. -/
  | conditional (setup : List Statement) (condition : Value) (consequent : List Statement)
      (alternative : Option (List Statement))
  | function (name : String) (parameters : List String) (body : List Statement)
  | class (name : String) (constructor : Option (List Statement)) (methods : List Method)
deriving Repr

inductive Method
  | mk (name : String) (parameters : List String) (body : List Statement)
deriving Repr

end

end LiterateFun.Script
