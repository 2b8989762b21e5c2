import LiterateFun.Lowering.Basic
import LiterateFun.Proofs.Naming.Region
import LiterateFun.Proofs.Scoping.Roles
import LiterateFun.Script.Render

/-!
This module contains the scopes of scripts, as their text shows them, and the scopes of programs
that belong to them.

A function or method has one scope for its parameters and its body. A conditional has a scope for
its condition, with the scopes of its branches inside. A class adds no scope to those of its
constructor and its methods.
-/

namespace LiterateFun

namespace Script

def Value.names : Value → List String
  | .string _ => []
  | .number _ => []
  | .variable v => [v.text]
  | .temporary _ => []

def Statement.declaredNames : Statement → List String
  | .declare v => [v.text]
  | .function name _ _ => [spell name]
  | .class name _ _ => [spell name]
  | _ => []

def Statement.usedNames : Statement → List String
  | .binary _ _ left right => left.names ++ right.names
  | .call _ callee arguments => callee.names ++ arguments.flatMap Value.names
  | .assign v result => v.text :: result.names
  | .unassignable result => result.names
  | .value result => result.names
  | .return result => result.names
  | _ => []

def scopeOf (names : List String) (script : List Statement) (inner : List (Region String)) :
    Region String :=
  .mk (names ++ script.flatMap Statement.declaredNames) (script.flatMap Statement.usedNames) inner

mutual

def Statement.regions : Statement → List (Region String)
  | .conditional setup condition consequent none =>
    [.mk (setup.flatMap Statement.declaredNames)
      (setup.flatMap Statement.usedNames ++ condition.names)
      (regionsOf setup ++ [scopeOf [] consequent (regionsOf consequent)])]
  | .conditional setup condition consequent (some alternative) =>
    [.mk (setup.flatMap Statement.declaredNames)
      (setup.flatMap Statement.usedNames ++ condition.names)
      (regionsOf setup ++ [scopeOf [] consequent (regionsOf consequent)]
        ++ [scopeOf [] alternative (regionsOf alternative)])]
  | .function _ parameters body => [scopeOf (parameters.map spell) body (regionsOf body)]
  | .class _ none methods => methodRegions methods
  | .class _ (some body) methods => scopeOf [] body (regionsOf body) :: methodRegions methods
  | .binary .. => []
  | .call .. => []
  | .declare _ => []
  | .assign .. => []
  | .unassignable _ => []
  | .value _ => []
  | .return _ => []

def Method.region : Method → Region String
  | .mk _ parameters body => scopeOf (parameters.map spell) body (regionsOf body)

def regionsOf : List Statement → List (Region String)
  | [] => []
  | s :: script => s.regions ++ regionsOf script

def methodRegions : List Method → List (Region String)
  | [] => []
  | m :: methods => m.region :: methodRegions methods

end

def region (names : List String) (script : List Statement) : Region String :=
  scopeOf names script (regionsOf script)

theorem regionsOf_append (script₁ script₂ : List Statement) :
    regionsOf (script₁ ++ script₂) = regionsOf script₁ ++ regionsOf script₂ := by
  induction script₁ with
  | nil => rfl
  | cons s script₁ ih => rw [List.cons_append, regionsOf, regionsOf, ih, List.append_assoc]

theorem regionsOf_singleton (s : Statement) : regionsOf [s] = s.regions := by
  rw [regionsOf, regionsOf, List.append_nil]

theorem regionsOf_eq_flatMap (script : List Statement) :
    regionsOf script = script.flatMap Statement.regions := by
  induction script with
  | nil => rfl
  | cons s script ih => rw [regionsOf, ih, List.flatMap_cons]

theorem methodRegions_eq_map (methods : List Method) :
    methodRegions methods = methods.map Method.region := by
  induction methods with
  | nil => rfl
  | cons m methods ih => rw [methodRegions, ih, List.map_cons]

end Script

/-- The text of an identifier in a script, where `ids` are the bindings that a `:=` introduces. -/
def Identifier.spelling (ids : List Nat) (x : Identifier) : String :=
  (x.variable ids).text

def Item.target? : Item → Option Identifier
  | .use _ => none
  | .bind x => some x
  | .scope _ _ => none

def Expr.targets (e : Expr) : List Identifier :=
  e.items.filterMap Item.target?

namespace Declaration

/-- The name of a class or function. That of a method is known in its class only. -/
def scopeNames : Declaration → List Identifier
  | .class name _ => [name]
  | .function name _ _ => [name]
  | .method .. => []

def classNames : Declaration → List String
  | .class name _ => [name.name]
  | _ => []

def owners : Declaration → List String
  | .method owner _ _ _ => [owner.name]
  | _ => []

end Declaration

namespace Statement

def scopeNames : Statement → List Identifier
  | .declaration d => d.scopeNames
  | _ => []

def classNames : Statement → List String
  | .declaration d => d.classNames
  | _ => []

def owners : Statement → List String
  | .declaration d => d.owners
  | _ => []

def targets : Statement → List Identifier
  | .expression value => value.targets
  | .return value => value.targets
  | _ => []

def used : Statement → List Identifier
  | .expression value => value.identifiers
  | .return value => value.identifiers
  | _ => []

end Statement

def Block.declared (b : Block) : List Identifier :=
  b.flatMap Statement.scopeNames ++ b.flatMap Statement.targets

def Block.scopeOf (names : List Identifier) (b : Block) (inner : List (Region Identifier)) :
    Region Identifier :=
  .mk (names ++ b.declared) (b.flatMap Statement.used) inner

mutual

def Statement.regions : Statement → List (Region Identifier)
  | .expression _ => []
  | .return _ => []
  | .conditional condition consequent none =>
    [.mk condition.targets condition.identifiers
      [Block.scopeOf [] consequent (blockRegions consequent)]]
  | .conditional condition consequent (some alternative) =>
    [.mk condition.targets condition.identifiers
      [Block.scopeOf [] consequent (blockRegions consequent),
        Block.scopeOf [] alternative (blockRegions alternative)]]
  | .declaration d => [d.region]

def Declaration.region : Declaration → Region Identifier
  | .class _ body => Block.scopeOf [] body (blockRegions body)
  | .function _ parameters body => Block.scopeOf parameters body (blockRegions body)
  | .method _ _ parameters body => Block.scopeOf parameters body (blockRegions body)

def blockRegions : List Statement → List (Region Identifier)
  | [] => []
  | s :: b => s.regions ++ blockRegions b

end

def Block.region (names : List Identifier) (b : Block) : Region Identifier :=
  b.scopeOf names (blockRegions b)

mutual

def Statement.blocks : Statement → List (List Identifier × Block)
  | .expression _ => []
  | .return _ => []
  | .conditional _ consequent none => ([], consequent) :: blocksIn consequent
  | .conditional _ consequent (some alternative) =>
    (([], consequent) :: blocksIn consequent) ++ (([], alternative) :: blocksIn alternative)
  | .declaration d => d.blocks

def Declaration.blocks : Declaration → List (List Identifier × Block)
  | .class _ body => ([], body) :: blocksIn body
  | .function _ parameters body => (parameters, body) :: blocksIn body
  | .method _ _ parameters body => (parameters, body) :: blocksIn body

def blocksIn : List Statement → List (List Identifier × Block)
  | [] => []
  | s :: b => s.blocks ++ blocksIn b

end

end LiterateFun
