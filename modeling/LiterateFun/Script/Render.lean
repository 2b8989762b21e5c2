import LiterateFun.Number.Decimal
import LiterateFun.Script.Basic
import LiterateFun.Script.StringLiteral
import LiterateFun.Text.Digits

/-!
This module contains the text of scripts. Every statement takes up lines of its own.
-/

namespace LiterateFun.Script

def spell (name : String) : String :=
  "FUN_" ++ name

def Variable.text (v : Variable) : String :=
  match v.id with
  | some id => spell v.name ++ "_" ++ Text.decimal id
  | none => spell v.name

def temporaryText (index : Nat) : String :=
  "temp" ++ Text.decimal index

def Value.text : Value → String
  | .string value => stringLiteral value
  | .number value => value.text
  | .variable v => v.text
  | .temporary index => temporaryText index

def listText (items : List String) : String :=
  "(" ++ ", ".intercalate items ++ ")"

def bracedLines (head : String) (lines : List String) : List String :=
  (head ++ "\x7b") :: lines ++ ["\x7d"]

mutual

def Statement.lines : Statement → List String
  | .binary index op left right =>
    ["const " ++ temporaryText index ++ " = " ++ left.text ++ " " ++ op.text ++ " " ++ right.text
      ++ ";"]
  | .call index callee arguments =>
    ["const " ++ temporaryText index ++ " = " ++ callee.text
      ++ listText (arguments.map Value.text) ++ ";"]
  | .declare v => ["let " ++ v.text ++ ";"]
  | .assign v value => [v.text ++ " = " ++ value.text ++ ";"]
  | .unassignable _ => []
  | .value value => [value.text ++ ";"]
  | .return value => ["return " ++ value.text ++ ";"]
  | .conditional setup condition consequent none =>
    bracedLines "" <| linesOf setup
      ++ bracedLines ("if (" ++ condition.text ++ ") ") (linesOf consequent)
  | .conditional setup condition consequent (some alternative) =>
    bracedLines "" <| linesOf setup
      ++ bracedLines ("if (" ++ condition.text ++ ") ") (linesOf consequent)
      ++ bracedLines "else " (linesOf alternative)
  | .function name parameters body =>
    bracedLines ("function " ++ spell name ++ listText (parameters.map spell) ++ " ") (linesOf body)
  | .class name none methods =>
    bracedLines ("class " ++ spell name ++ " ") (methodLines methods)
  | .class name (some body) methods =>
    bracedLines ("class " ++ spell name ++ " ") <|
      bracedLines "constructor() " (linesOf body) ++ methodLines methods

def Method.lines : Method → List String
  | .mk name parameters body =>
    bracedLines (spell name ++ listText (parameters.map spell) ++ " ") (linesOf body)

def linesOf : List Statement → List String
  | [] => []
  | s :: script => s.lines ++ linesOf script

def methodLines : List Method → List String
  | [] => []
  | m :: methods => m.lines ++ methodLines methods

end

theorem linesOf_append (script script' : List Statement) :
    linesOf (script ++ script') = linesOf script ++ linesOf script' := by
  induction script with
  | nil => rfl
  | cons s script ih => rw [List.cons_append, linesOf, linesOf, ih, List.append_assoc]

mutual

/-- Whether a statement has a text. An assignment to something else than a variable has none. -/
def Statement.hasText : Statement → Bool
  | .binary .. => true
  | .call .. => true
  | .declare _ => true
  | .assign .. => true
  | .unassignable _ => false
  | .value _ => true
  | .return _ => true
  | .conditional setup _ consequent none => haveText setup && haveText consequent
  | .conditional setup _ consequent (some alternative) =>
    haveText setup && haveText consequent && haveText alternative
  | .function _ _ body => haveText body
  | .class _ none methods => methodsHaveText methods
  | .class _ (some body) methods => haveText body && methodsHaveText methods

def Method.hasText : Method → Bool
  | .mk _ _ body => haveText body

def haveText : List Statement → Bool
  | [] => true
  | s :: script => s.hasText && haveText script

def methodsHaveText : List Method → Bool
  | [] => true
  | m :: methods => m.hasText && methodsHaveText methods

end

def text (script : List Statement) : String :=
  String.join ((linesOf script).map (· ++ "\n"))

def text? (script : List Statement) : Option String :=
  if haveText script then some (text script) else none

end LiterateFun.Script
