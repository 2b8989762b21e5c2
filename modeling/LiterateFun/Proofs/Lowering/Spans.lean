import LiterateFun.Compile
import LiterateFun.Proofs.Parsing.Places

/-!
This module contains the independence of the code from spans: a program without its places has the
same code.
-/

namespace LiterateFun

open Lowering

mutual

theorem Expr.declaredIds_unplaced (e : Expr) :
    (e.relabel Identifier.unplaced).declaredIds = e.declaredIds := by
  match e with
  | .string _ => rfl
  | .number _ => rfl
  | .identifier _ => rfl
  | .binary _ left right =>
    simp only [Expr.relabel, Expr.declaredIds, left.declaredIds_unplaced,
      right.declaredIds_unplaced]
  | .call callee arguments =>
    simp only [Expr.relabel, Expr.declaredIds, callee.declaredIds_unplaced,
      Expr.declaredIdsList_unplaced arguments]
  | .assign target value => simp only [Expr.relabel, Expr.declaredIds, value.declaredIds_unplaced]
  | .declare x value =>
    simp only [Expr.relabel, Expr.declaredIds, value.declaredIds_unplaced, Identifier.unplaced]

theorem Expr.declaredIdsList_unplaced (es : List Expr) :
    Expr.declaredIdsList (Expr.relabelList Identifier.unplaced es) = Expr.declaredIdsList es := by
  match es with
  | [] => rfl
  | e :: es =>
    simp only [Expr.relabelList, Expr.declaredIdsList, e.declaredIds_unplaced,
      Expr.declaredIdsList_unplaced es]

end

mutual

theorem Statement.declaredIds_unplaced (s : Statement) :
    (s.relabel Identifier.unplaced).declaredIds = s.declaredIds := by
  match s with
  | .expression value => exact value.declaredIds_unplaced
  | .return value => exact value.declaredIds_unplaced
  | .conditional condition consequent none =>
    simp only [Statement.relabel, Statement.declaredIds, condition.declaredIds_unplaced,
      blockDeclaredIds_unplaced consequent]
  | .conditional condition consequent (some alternative) =>
    simp only [Statement.relabel, Statement.declaredIds, condition.declaredIds_unplaced,
      blockDeclaredIds_unplaced consequent, blockDeclaredIds_unplaced alternative]
  | .declaration d => exact d.declaredIds_unplaced

theorem Declaration.declaredIds_unplaced (d : Declaration) :
    (d.relabel Identifier.unplaced).declaredIds = d.declaredIds := by
  match d with
  | .class _ body => exact blockDeclaredIds_unplaced body
  | .function _ _ body => exact blockDeclaredIds_unplaced body
  | .method _ _ _ body => exact blockDeclaredIds_unplaced body

theorem blockDeclaredIds_unplaced (b : List Statement) :
    blockDeclaredIds (relabelStatements Identifier.unplaced b) = blockDeclaredIds b := by
  match b with
  | [] => rfl
  | s :: b =>
    simp only [relabelStatements, blockDeclaredIds, s.declaredIds_unplaced,
      blockDeclaredIds_unplaced b]

end

theorem Identifier.variable_unplaced (ids : List Nat) (x : Identifier) :
    x.unplaced.variable ids = x.variable ids := rfl

mutual

theorem Expr.lower_unplaced (ids : List Nat) (e : Expr) :
    (e.relabel Identifier.unplaced).lower ids = e.lower ids := by
  match e with
  | .string _ => rfl
  | .number _ => rfl
  | .identifier _ => rfl
  | .binary _ left right =>
    simp only [Expr.relabel, Expr.lower, left.lower_unplaced ids, right.lower_unplaced ids]
  | .call callee arguments =>
    simp only [Expr.relabel, Expr.lower, callee.lower_unplaced ids,
      Expr.lowerList_unplaced ids arguments]
  | .assign target value =>
    cases target <;>
      simp only [Expr.relabel, Expr.lower, value.lower_unplaced ids, Identifier.variable_unplaced]
  | .declare x value =>
    simp only [Expr.relabel, Expr.lower, value.lower_unplaced ids, Identifier.variable_unplaced]

theorem Expr.lowerList_unplaced (ids : List Nat) (es : List Expr) :
    Expr.lowerList ids (Expr.relabelList Identifier.unplaced es) = Expr.lowerList ids es := by
  match es with
  | [] => rfl
  | e :: es =>
    simp only [Expr.relabelList, Expr.lowerList, e.lower_unplaced ids,
      Expr.lowerList_unplaced ids es]

end

theorem map_name_unplaced (xs : List Identifier) :
    (xs.map Identifier.unplaced).map Identifier.name = xs.map Identifier.name := by
  rw [List.map_map]
  rfl

mutual

theorem Statement.lower_unplaced (ids : List Nat) (s : Statement) :
    (s.relabel Identifier.unplaced).lower ids = s.lower ids := by
  match s with
  | .expression value => simp only [Statement.relabel, Statement.lower, value.lower_unplaced]
  | .return value => simp only [Statement.relabel, Statement.lower, value.lower_unplaced]
  | .conditional condition consequent none =>
    simp only [Statement.relabel, Statement.lower, condition.lower_unplaced,
      lowerDeclarations_unplaced ids consequent, lowerStatements_unplaced ids consequent]
  | .conditional condition consequent (some alternative) =>
    simp only [Statement.relabel, Statement.lower, condition.lower_unplaced,
      lowerDeclarations_unplaced ids consequent, lowerStatements_unplaced ids consequent,
      lowerDeclarations_unplaced ids alternative, lowerStatements_unplaced ids alternative]
  | .declaration _ => rfl

theorem Declaration.lower_unplaced (ids : List Nat) (d : Declaration) :
    (d.relabel Identifier.unplaced).lower ids = d.lower ids := by
  match d with
  | .class name body =>
    simp only [Declaration.relabel, Declaration.lower, lowerDeclarations_unplaced ids body,
      lowerStatements_unplaced ids body, Identifier.unplaced]
  | .function name parameters body =>
    simp only [Declaration.relabel, Declaration.lower, lowerDeclarations_unplaced ids body,
      lowerStatements_unplaced ids body, map_name_unplaced, Identifier.unplaced]
  | .method owner name parameters body =>
    simp only [Declaration.relabel, Declaration.lower, lowerDeclarations_unplaced ids body,
      lowerStatements_unplaced ids body, map_name_unplaced, Identifier.unplaced]

theorem lowerStatements_unplaced (ids : List Nat) (b : List Statement) :
    lowerStatements ids (relabelStatements Identifier.unplaced b) = lowerStatements ids b := by
  match b with
  | [] => rfl
  | s :: b =>
    simp only [relabelStatements, lowerStatements, s.lower_unplaced ids,
      lowerStatements_unplaced ids b]

theorem lowerDeclarations_unplaced (ids : List Nat) (b : List Statement) :
    lowerDeclarations ids (relabelStatements Identifier.unplaced b) =
      lowerDeclarations ids b := by
  match b with
  | [] => rfl
  | .declaration d :: b =>
    simp only [relabelStatements, Statement.relabel, lowerDeclarations, d.lower_unplaced ids,
      lowerDeclarations_unplaced ids b]
  | .expression _ :: b => exact lowerDeclarations_unplaced ids b
  | .return _ :: b => exact lowerDeclarations_unplaced ids b
  | .conditional _ _ none :: b => exact lowerDeclarations_unplaced ids b
  | .conditional _ _ (some _) :: b => exact lowerDeclarations_unplaced ids b

end

theorem relabelStatements_eq_map (f : Identifier → Identifier) (b : List Statement) :
    relabelStatements f b = b.map (Statement.relabel f) := by
  induction b with
  | nil => rfl
  | cons s b ih => rw [relabelStatements, ih, List.map_cons]

namespace Generator

def unplaced (g : Generator) : Generator :=
  { g with
    declarations := g.declarations.map (Declaration.relabel Identifier.unplaced)
    statements := g.statements.map (Statement.relabel Identifier.unplaced) }

theorem isClassNamed_unplaced (name : String) (d : Declaration) :
    isClassNamed name (d.relabel Identifier.unplaced) = isClassNamed name d := by
  cases d <;> rfl

theorem any_isClassNamed_unplaced (name : String) (ds : List Declaration) :
    (ds.map (Declaration.relabel Identifier.unplaced)).any (isClassNamed name) =
      ds.any (isClassNamed name) := by
  rw [List.any_map]
  exact congrArg ds.any (funext (isClassNamed_unplaced name))

theorem addDeclaration_unplaced (g : Generator) (d : Declaration) :
    g.unplaced.addDeclaration (d.relabel Identifier.unplaced) = (g.addDeclaration d).unplaced := by
  cases d with
  | «class» name body =>
    simp only [Declaration.relabel, addDeclaration, unplaced, any_isClassNamed_unplaced,
      Identifier.unplaced]
    split
    · simp only [List.map_map, Generator.mk.injEq, and_true]
      apply List.map_congr_left
      intro d _
      rw [Function.comp_apply, Function.comp_apply, isClassNamed_unplaced]
      split <;> rfl
    · simp [Declaration.relabel, Identifier.unplaced]
  | function => simp [Declaration.relabel, addDeclaration, unplaced]
  | method => simp [Declaration.relabel, addDeclaration, unplaced]

theorem add_unplaced (g : Generator) (s : Statement) :
    g.unplaced.add (s.relabel Identifier.unplaced) = (g.add s).unplaced := by
  match s with
  | .declaration d => exact g.addDeclaration_unplaced d
  | .expression _ => simp [Statement.relabel, add, unplaced]
  | .return _ => simp [Statement.relabel, add, unplaced]
  | .conditional _ _ none => simp [Statement.relabel, add, unplaced]
  | .conditional _ _ (some _) => simp [Statement.relabel, add, unplaced]

theorem ofBlock_unplaced (b : Block) : ofBlock b.unplaced = (ofBlock b).unplaced := by
  have hfoldl (g : Generator) : b.unplaced.foldl add g.unplaced = (b.foldl add g).unplaced := by
    induction b generalizing g with
    | nil => rfl
    | cons s b ih =>
      rw [List.foldl_cons, ← ih, ← add_unplaced]
      rfl
  exact hfoldl {}

theorem declaredIds_unplaced (g : Generator) : g.unplaced.declaredIds = g.declaredIds := by
  simp only [declaredIds, unplaced, List.flatMap_map, Declaration.declaredIds_unplaced,
    Statement.declaredIds_unplaced]

theorem script_unplaced (g : Generator) : g.unplaced.script.1 = g.script.1 := by
  have hids : g.unplaced.ids.getD g.unplaced.declaredIds = g.ids.getD g.declaredIds := by
    rw [declaredIds_unplaced]
    rfl
  have hpieces (ids : List Nat) :
      g.unplaced.declarations.map (Declaration.lower ids) =
        g.declarations.map (Declaration.lower ids) := by
    rw [unplaced, List.map_map]
    exact List.map_congr_left fun d _ => d.lower_unplaced ids
  have hstatements (ids : List Nat) :
      lowerStatements ids g.unplaced.statements = lowerStatements ids g.statements := by
    rw [unplaced, ← relabelStatements_eq_map, lowerStatements_unplaced]
  simp only [script, hids, hpieces, hstatements]
  rfl

theorem code_unplaced (b : Block) : (ofBlock b.unplaced).code = (ofBlock b).code := by
  rw [ofBlock_unplaced, code, script_unplaced, code]

end Generator

end LiterateFun
