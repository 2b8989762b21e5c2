import LiterateFun.Number.Decimal
import LiterateFun.Program.Basic
import LiterateFun.Text.Quoted

/-!
This module contains the printed form of programs. It is written like a source in which every
expression stands in parentheses, and it shows the bindings of resolved identifiers.
-/

namespace LiterateFun

def Identifier.print (x : Identifier) : String :=
  match x.id with
  | some id =>
    "<" ++ x.name ++ ":" ++ Text.decimal id ++ ";" ++ Text.decimal x.span.start ++ "-"
      ++ Text.decimal x.span.stop ++ ">"
  | none => x.name

mutual

def Expr.print : Expr → String
  | .string value => "(" ++ Text.quote value ++ ")"
  | .number value => "(" ++ value.text ++ ")"
  | .identifier x => "(" ++ x.print ++ ")"
  | .binary op left right => "(" ++ left.print ++ " " ++ op.text ++ " " ++ right.print ++ ")"
  | .call callee arguments =>
    "(" ++ callee.print ++ "(" ++ ", ".intercalate (Expr.printEach arguments) ++ "))"
  | .assign target value => "(" ++ target.print ++ " = " ++ value.print ++ ")"
  | .declare x value => "(" ++ x.print ++ " := " ++ value.print ++ ")"

def Expr.printEach : List Expr → List String
  | [] => []
  | e :: es => e.print :: Expr.printEach es

end

def indentation (depth : Nat) : String :=
  String.ofList (List.replicate (4 * depth) ' ')

def printParameters (parameters : List Identifier) : String :=
  "\x7b" ++ ", ".intercalate (parameters.map Identifier.print) ++ "\x7d"

def printBraced (depth : Nat) (lines : String) : String :=
  "\x7b\n" ++ lines ++ indentation depth ++ "\x7d"

mutual

def Statement.print (depth : Nat) : Statement → String
  | .expression value => value.print ++ ";"
  | .return value => "return " ++ value.print ++ ";"
  | .conditional condition consequent none =>
    "if " ++ condition.print ++ " " ++ printBraced depth (printBlock (depth + 1) consequent)
  | .conditional condition consequent (some alternative) =>
    "if " ++ condition.print ++ " " ++ printBraced depth (printBlock (depth + 1) consequent)
      ++ " else " ++ printBraced depth (printBlock (depth + 1) alternative)
  | .declaration d => d.print depth

def Declaration.print (depth : Nat) : Declaration → String
  | .class name body =>
    "\\class\x7b" ++ name.print ++ "\x7d" ++ printBraced depth (printBlock (depth + 1) body)
  | .function name parameters body =>
    "\\fun\x7b" ++ name.print ++ "\x7d" ++ printParameters parameters
      ++ printBraced depth (printBlock (depth + 1) body)
  | .method owner name parameters body =>
    "\\fun\x7b" ++ owner.print ++ "::" ++ name.print ++ "\x7d" ++ printParameters parameters
      ++ printBraced depth (printBlock (depth + 1) body)

def printBlock (depth : Nat) : List Statement → String
  | [] => ""
  | s :: b => indentation depth ++ s.print depth ++ "\n" ++ printBlock depth b

end

def Block.print (b : Block) : String :=
  printBlock 0 b

end LiterateFun
