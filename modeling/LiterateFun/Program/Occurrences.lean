import LiterateFun.Program.Basic

/-!
This module contains the identifiers of a program in the order of its source, and the search for an
occurrence of a name among them.
-/

namespace LiterateFun

mutual

def Expr.identifiers : Expr → List Identifier
  | .string _ => []
  | .number _ => []
  | .identifier x => [x]
  | .binary _ left right => left.identifiers ++ right.identifiers
  | .call callee arguments => callee.identifiers ++ Expr.identifiersList arguments
  | .assign target value => target.identifiers ++ value.identifiers
  | .declare x value => x :: value.identifiers

def Expr.identifiersList : List Expr → List Identifier
  | [] => []
  | e :: es => e.identifiers ++ Expr.identifiersList es

end

mutual

def Statement.identifiers : Statement → List Identifier
  | .expression value => value.identifiers
  | .return value => value.identifiers
  | .conditional condition consequent none =>
    condition.identifiers ++ blockIdentifiers consequent
  | .conditional condition consequent (some alternative) =>
    condition.identifiers ++ blockIdentifiers consequent ++ blockIdentifiers alternative
  | .declaration d => d.identifiers

def Declaration.identifiers : Declaration → List Identifier
  | .class name body => name :: blockIdentifiers body
  | .function name parameters body => name :: parameters ++ blockIdentifiers body
  | .method owner name parameters body => owner :: name :: parameters ++ blockIdentifiers body

def blockIdentifiers : List Statement → List Identifier
  | [] => []
  | s :: b => s.identifiers ++ blockIdentifiers b

end

theorem Expr.identifiersList_eq_flatMap (es : List Expr) :
    Expr.identifiersList es = es.flatMap Expr.identifiers := by
  induction es with
  | nil => rfl
  | cons e es ih => rw [Expr.identifiersList, ih, List.flatMap_cons]

theorem blockIdentifiers_eq_flatMap (b : List Statement) :
    blockIdentifiers b = b.flatMap Statement.identifiers := by
  induction b with
  | nil => rfl
  | cons s b ih => rw [blockIdentifiers, ih, List.flatMap_cons]

namespace Declaration

def occurrences (d : Declaration) (name : String) : List Nat :=
  (d.identifiers.filter (·.name = name)).filterMap (·.id)

/-- The binding of the first resolved occurrence of a name, which a reader meets going down. -/
def first? (d : Declaration) (name : String) : Option Nat :=
  (d.occurrences name).head?

/-- The binding of the last resolved occurrence of a name, which a reader meets going up. -/
def last? (d : Declaration) (name : String) : Option Nat :=
  (d.occurrences name).getLast?

end Declaration

end LiterateFun
