import LiterateFun.Proofs.Relabel

/-!
This module contains the expressions that occur in a program at any depth.
-/

namespace LiterateFun

mutual

def Expr.subexpressions : Expr → List Expr
  | .string value => [.string value]
  | .number value => [.number value]
  | .identifier x => [.identifier x]
  | .binary op left right =>
    .binary op left right :: (left.subexpressions ++ right.subexpressions)
  | .call callee arguments =>
    .call callee arguments :: (callee.subexpressions ++ Expr.subexpressionsList arguments)
  | .assign target value =>
    .assign target value :: (target.subexpressions ++ value.subexpressions)
  | .declare x value => .declare x value :: value.subexpressions

def Expr.subexpressionsList : List Expr → List Expr
  | [] => []
  | e :: es => e.subexpressions ++ Expr.subexpressionsList es

end

mutual

def Statement.subexpressions : Statement → List Expr
  | .expression value => value.subexpressions
  | .return value => value.subexpressions
  | .conditional condition consequent none =>
    condition.subexpressions ++ blockSubexpressions consequent
  | .conditional condition consequent (some alternative) =>
    condition.subexpressions ++ blockSubexpressions consequent ++ blockSubexpressions alternative
  | .declaration d => d.subexpressions

def Declaration.subexpressions : Declaration → List Expr
  | .class _ body => blockSubexpressions body
  | .function _ _ body => blockSubexpressions body
  | .method _ _ _ body => blockSubexpressions body

def blockSubexpressions : List Statement → List Expr
  | [] => []
  | s :: b => s.subexpressions ++ blockSubexpressions b

end

mutual

def Statement.roots : Statement → List Expr
  | .expression value => [value]
  | .return value => [value]
  | .conditional condition consequent none => condition :: blockRoots consequent
  | .conditional condition consequent (some alternative) =>
    condition :: (blockRoots consequent ++ blockRoots alternative)
  | .declaration d => d.roots

def Declaration.roots : Declaration → List Expr
  | .class _ body => blockRoots body
  | .function _ _ body => blockRoots body
  | .method _ _ _ body => blockRoots body

def blockRoots : List Statement → List Expr
  | [] => []
  | s :: b => s.roots ++ blockRoots b

end

mutual

theorem Statement.subexpressions_eq (s : Statement) :
    s.subexpressions = s.roots.flatMap Expr.subexpressions := by
  match s with
  | .expression value => exact (List.flatMap_singleton ..).symm
  | .return value => exact (List.flatMap_singleton ..).symm
  | .conditional condition consequent none =>
    rw [Statement.subexpressions, Statement.roots, List.flatMap_cons,
      blockSubexpressions_eq consequent]
  | .conditional condition consequent (some alternative) =>
    rw [Statement.subexpressions, Statement.roots, List.flatMap_cons, List.flatMap_append,
      blockSubexpressions_eq consequent, blockSubexpressions_eq alternative, List.append_assoc]
  | .declaration d => exact d.subexpressions_eq

theorem Declaration.subexpressions_eq (d : Declaration) :
    d.subexpressions = d.roots.flatMap Expr.subexpressions := by
  match d with
  | .class _ body => exact blockSubexpressions_eq body
  | .function _ _ body => exact blockSubexpressions_eq body
  | .method _ _ _ body => exact blockSubexpressions_eq body

theorem blockSubexpressions_eq (b : List Statement) :
    blockSubexpressions b = (blockRoots b).flatMap Expr.subexpressions := by
  match b with
  | [] => rfl
  | s :: b =>
    rw [blockSubexpressions, blockRoots, List.flatMap_append, s.subexpressions_eq,
      blockSubexpressions_eq b]

end

theorem flatMap_blockRoots {α : Type} (f : Expr → List α) (b : List Statement) :
    (blockRoots b).flatMap (fun e => e.subexpressions.flatMap f) =
      (blockSubexpressions b).flatMap f := by
  rw [blockSubexpressions_eq, List.flatMap_assoc]

theorem Expr.mem_subexpressions_self (e : Expr) : e ∈ e.subexpressions := by
  cases e <;> exact List.mem_cons_self

theorem Expr.mem_subexpressionsList {es : List Expr} {e : Expr} :
    e ∈ Expr.subexpressionsList es ↔ ∃ a ∈ es, e ∈ a.subexpressions := by
  induction es with
  | nil => simp [Expr.subexpressionsList]
  | cons a es ih => simp [Expr.subexpressionsList, ih]

/-- All assignments `target = value` among some expressions are assignments to identifiers. -/
def Assignable (es : List Expr) : Prop :=
  ∀ target value, Expr.assign target value ∈ es → ∃ x, target = .identifier x

theorem assignable_nil : Assignable [] := by
  intro target value h
  cases h

theorem assignable_append {es₁ es₂ : List Expr} :
    Assignable (es₁ ++ es₂) ↔ Assignable es₁ ∧ Assignable es₂ := by
  simp only [Assignable, List.mem_append]
  constructor
  · intro h
    exact ⟨fun target value hmem => h target value (.inl hmem),
      fun target value hmem => h target value (.inr hmem)⟩
  · rintro ⟨h₁, h₂⟩ target value (hmem | hmem)
    · exact h₁ target value hmem
    · exact h₂ target value hmem

theorem Assignable.of_cons {e : Expr} {es : List Expr} (h : Assignable (e :: es)) :
    Assignable es := by
  intro target value hmem
  exact h target value (List.mem_cons_of_mem e hmem)

theorem assignable_cons {e : Expr} {es : List Expr}
    (he : ∀ target value, e ≠ .assign target value) :
    Assignable (e :: es) ↔ Assignable es := by
  simp only [Assignable, List.mem_cons]
  constructor
  · intro h target value hmem
    exact h target value (.inr hmem)
  · rintro h target value (rfl | hmem)
    · exact absurd rfl (he target value)
    · exact h target value hmem

theorem assignable_assign {x : Identifier} {value : Expr} {es : List Expr} :
    Assignable (.assign (.identifier x) value :: es) ↔ Assignable es := by
  simp only [Assignable, List.mem_cons]
  constructor
  · intro h target value hmem
    exact h target value (.inr hmem)
  · rintro h target value (heq | hmem)
    · cases heq
      exact ⟨x, rfl⟩
    · exact h target value hmem

mutual

theorem Expr.subexpressions_relabel (f : Identifier → Identifier) (e : Expr) :
    (e.relabel f).subexpressions = e.subexpressions.map (Expr.relabel f) := by
  match e with
  | .string value => rfl
  | .number value => rfl
  | .identifier x => rfl
  | .binary op left right =>
    rw [Expr.relabel, Expr.subexpressions, Expr.subexpressions, left.subexpressions_relabel f,
      right.subexpressions_relabel f, List.map_cons, List.map_append, Expr.relabel]
  | .call callee arguments =>
    rw [Expr.relabel, Expr.subexpressions, Expr.subexpressions, callee.subexpressions_relabel f,
      Expr.subexpressionsList_relabel f arguments, List.map_cons, List.map_append, Expr.relabel]
  | .assign target value =>
    rw [Expr.relabel, Expr.subexpressions, Expr.subexpressions, target.subexpressions_relabel f,
      value.subexpressions_relabel f, List.map_cons, List.map_append, Expr.relabel]
  | .declare x value =>
    rw [Expr.relabel, Expr.subexpressions, Expr.subexpressions, value.subexpressions_relabel f,
      List.map_cons, Expr.relabel]

theorem Expr.subexpressionsList_relabel (f : Identifier → Identifier) (es : List Expr) :
    Expr.subexpressionsList (Expr.relabelList f es) =
      (Expr.subexpressionsList es).map (Expr.relabel f) := by
  match es with
  | [] => rfl
  | e :: es =>
    rw [Expr.relabelList, Expr.subexpressionsList, Expr.subexpressionsList,
      e.subexpressions_relabel f, Expr.subexpressionsList_relabel f es, List.map_append]

end

mutual

theorem Statement.subexpressions_relabel (f : Identifier → Identifier) (s : Statement) :
    (s.relabel f).subexpressions = s.subexpressions.map (Expr.relabel f) := by
  match s with
  | .expression value => exact value.subexpressions_relabel f
  | .return value => exact value.subexpressions_relabel f
  | .conditional condition consequent none =>
    rw [Statement.relabel, Statement.subexpressions, Statement.subexpressions,
      condition.subexpressions_relabel f, blockSubexpressions_relabel f consequent, List.map_append]
  | .conditional condition consequent (some alternative) =>
    rw [Statement.relabel, Statement.subexpressions, Statement.subexpressions,
      condition.subexpressions_relabel f, blockSubexpressions_relabel f consequent,
      blockSubexpressions_relabel f alternative, List.map_append, List.map_append]
  | .declaration d => exact d.subexpressions_relabel f

theorem Declaration.subexpressions_relabel (f : Identifier → Identifier) (d : Declaration) :
    (d.relabel f).subexpressions = d.subexpressions.map (Expr.relabel f) := by
  match d with
  | .class name body => exact blockSubexpressions_relabel f body
  | .function name parameters body => exact blockSubexpressions_relabel f body
  | .method owner name parameters body => exact blockSubexpressions_relabel f body

theorem blockSubexpressions_relabel (f : Identifier → Identifier) (b : List Statement) :
    blockSubexpressions (relabelStatements f b) =
      (blockSubexpressions b).map (Expr.relabel f) := by
  match b with
  | [] => rfl
  | s :: b =>
    rw [relabelStatements, blockSubexpressions, blockSubexpressions, s.subexpressions_relabel f,
      blockSubexpressions_relabel f b, List.map_append]

end

theorem exists_subexpression_of_same {b c : Block} (h : c.forgetIds = b.forgetIds) {e : Expr}
    (he : e ∈ blockSubexpressions c) :
    ∃ e' ∈ blockSubexpressions b,
      e'.relabel Identifier.forgetId = e.relabel Identifier.forgetId := by
  have hmem : e.relabel Identifier.forgetId ∈ blockSubexpressions c.forgetIds := by
    rw [Block.forgetIds, blockSubexpressions_relabel]
    exact List.mem_map_of_mem he
  rw [h, Block.forgetIds, blockSubexpressions_relabel] at hmem
  exact List.mem_map.1 hmem

theorem Assignable.of_same {b c : Block} (h : c.forgetIds = b.forgetIds)
    (hb : Assignable (blockSubexpressions b)) : Assignable (blockSubexpressions c) := by
  intro target value hmem
  obtain ⟨e, he, heq⟩ := exists_subexpression_of_same h hmem
  cases e with
  | assign target' value' =>
    obtain ⟨x, rfl⟩ := hb target' value' he
    simp only [Expr.relabel, Expr.assign.injEq] at heq
    cases target with
    | identifier y => exact ⟨y, rfl⟩
    | _ => cases heq.1
  | _ => cases heq

end LiterateFun
