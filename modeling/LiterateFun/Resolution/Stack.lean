import LiterateFun.Resolution.Basic

/-!
This module contains the balance of resolution: whatever is resolved, and wherever it fails, every
scope that was opened on the way has been closed again.
-/

namespace LiterateFun

namespace Resolution

theorem scope_refer (around : Surroundings) (x : Identifier) (s : State) :
    (refer around x s).2.scope = s.scope := by
  unfold refer
  split
  · rfl
  · split <;> rfl

namespace Resolver

structure KeepsParents (f : Resolver α) : Prop where
  parents (env : Environment) : (f env).2.parents = env.parents
  globals (env : Environment) : (f env).2.globals = env.globals

structure IsBalanced (f : Resolver α) : Prop extends KeepsParents f where
  scope (env : Environment) : (f env).2.scope = env.scope

theorem isBalanced_pure (a : α) : IsBalanced (pure a) :=
  ⟨⟨fun _ => rfl, fun _ => rfl⟩, fun _ => rfl⟩

theorem keepsParents_here (f : Step α) : KeepsParents (here f) :=
  ⟨fun _ => rfl, fun _ => rfl⟩

theorem isBalanced_reference (x : Identifier) : IsBalanced (reference x) where
  parents _ := rfl
  globals _ := rfl
  scope env := scope_refer env.surroundings x env.toState

theorem KeepsParents.bind {f : Resolver α} {g : α → Resolver β} (hf : KeepsParents f)
    (hg : ∀ a, KeepsParents (g a)) : KeepsParents (f >>= g) := by
  constructor
  · intro env
    exact ((hg (f env).1).parents (f env).2).trans (hf.parents env)
  · intro env
    exact ((hg (f env).1).globals (f env).2).trans (hf.globals env)

theorem KeepsParents.bind_pure {f : Resolver α} (hf : KeepsParents f) (g : α → β) :
    KeepsParents (f >>= fun a => pure (g a)) :=
  hf.bind fun a => (isBalanced_pure (g a)).toKeepsParents

theorem IsBalanced.bind {f : Resolver α} {g : α → Resolver β} (hf : IsBalanced f)
    (hg : ∀ a, IsBalanced (g a)) : IsBalanced (f >>= g) where
  toKeepsParents := hf.toKeepsParents.bind fun a => (hg a).toKeepsParents
  scope env := ((hg (f env).1).scope (f env).2).trans (hf.scope env)

theorem IsBalanced.bind_pure {f : Resolver α} (hf : IsBalanced f) (g : α → β) :
    IsBalanced (f >>= fun a => pure (g a)) :=
  hf.bind fun a => isBalanced_pure (g a)

theorem KeepsParents.inScope {f : Resolver α} (hf : KeepsParents f) : IsBalanced (inScope f) := by
  -- The step finds the parents as they were, so that closing its scope brings the old one back.
  have hparents (env : Environment) :
      (f (enterScope env).2).2.parents = env.scope :: env.parents := hf.parents _
  refine ⟨⟨?_, ?_⟩, ?_⟩
  · intro env
    exact congrArg List.tail (hparents env)
  · intro env
    exact hf.globals (enterScope env).2
  · intro env
    exact congrArg (List.headD · []) (hparents env)

theorem KeepsParents.inBlock {statements : Resolver Block} (h : KeepsParents statements)
    (b : Block) : IsBalanced (inBlock b statements) := by
  apply KeepsParents.inScope
  apply (keepsParents_here b.hoist).bind
  intro names
  apply h.bind_pure

end Resolver

end Resolution

open Resolution Resolver

mutual

theorem Expr.keepsParents_bindNames (e : Expr) : KeepsParents e.bindNames := by
  cases e with
  | string => exact (isBalanced_pure _).toKeepsParents
  | number => exact (isBalanced_pure _).toKeepsParents
  | identifier x =>
    rw [bindNames]
    apply (isBalanced_reference x).toKeepsParents.bind_pure
  | binary op left right =>
    rw [bindNames]
    apply left.keepsParents_bindNames.bind
    intro left
    apply right.keepsParents_bindNames.bind_pure
  | call callee arguments =>
    rw [bindNames]
    apply callee.keepsParents_bindNames.bind
    intro callee
    apply (Expr.keepsParents_bindNamesList arguments).bind_pure
  | assign target value =>
    cases target with
    | identifier x =>
      rw [bindNames]
      apply (isBalanced_reference x).toKeepsParents.bind
      intro x
      apply value.keepsParents_bindNames.bind_pure
    | _ => exact (keepsParents_here _).bind_pure _
  | declare x value =>
    rw [bindNames]
    apply value.keepsParents_bindNames.bind
    intro value
    apply (keepsParents_here _).bind_pure

theorem Expr.keepsParents_bindNamesList (es : List Expr) :
    KeepsParents (Expr.bindNamesList es) := by
  cases es with
  | nil => exact (isBalanced_pure _).toKeepsParents
  | cons e es =>
    rw [bindNamesList]
    apply e.keepsParents_bindNames.bind
    intro e
    apply (Expr.keepsParents_bindNamesList es).bind_pure

end

mutual

theorem Statement.keepsParents_bindNames (s : Statement) : KeepsParents s.bindNames := by
  cases s with
  | expression value =>
    rw [Statement.bindNames]
    apply value.keepsParents_bindNames.bind_pure
  | «return» value =>
    rw [Statement.bindNames]
    apply value.keepsParents_bindNames.bind_pure
  | declaration d =>
    rw [Statement.bindNames]
    apply d.isBalanced_bindNames.toKeepsParents.bind_pure
  | conditional condition consequent alternative =>
    have hconsequent := (keepsParents_bindStatements consequent).inBlock consequent
    cases alternative with
    | none =>
      rw [Statement.bindNames]
      apply IsBalanced.toKeepsParents
      apply KeepsParents.inScope
      apply (keepsParents_here condition.reserveNames).bind
      intro _
      apply condition.keepsParents_bindNames.bind
      intro condition
      apply hconsequent.toKeepsParents.bind_pure
    | some alternative =>
      have halternative := (keepsParents_bindStatements alternative).inBlock alternative
      rw [Statement.bindNames]
      apply IsBalanced.toKeepsParents
      apply KeepsParents.inScope
      apply (keepsParents_here condition.reserveNames).bind
      intro _
      apply condition.keepsParents_bindNames.bind
      intro condition
      apply hconsequent.toKeepsParents.bind
      intro consequent
      apply halternative.toKeepsParents.bind_pure

theorem Declaration.isBalanced_bindNames (d : Declaration) : IsBalanced d.bindNames := by
  cases d with
  | «class» name body =>
    rw [Declaration.bindNames]
    apply ((keepsParents_bindStatements body).inBlock body).bind_pure
  | function name parameters body =>
    rw [Declaration.bindNames]
    apply KeepsParents.inScope
    apply (keepsParents_here (resolveParameters parameters)).bind
    intro parameters
    apply ((keepsParents_bindStatements body).inBlock body).toKeepsParents.bind_pure
  | method owner name parameters body =>
    rw [Declaration.bindNames]
    apply (isBalanced_reference owner).bind
    intro owner
    apply KeepsParents.inScope
    apply (keepsParents_here (resolveParameters parameters)).bind
    intro parameters
    apply ((keepsParents_bindStatements body).inBlock body).toKeepsParents.bind_pure

theorem keepsParents_bindStatements (b : List Statement) : KeepsParents (bindStatements b) := by
  cases b with
  | nil => exact (isBalanced_pure _).toKeepsParents
  | cons s b =>
    rw [bindStatements]
    apply s.keepsParents_bindNames.bind
    intro s
    apply (keepsParents_bindStatements b).bind_pure

end

theorem Block.isBalanced_bindNames (b : Block) : IsBalanced b.bindNames :=
  (keepsParents_bindStatements b).inBlock b

theorem isBalanced_bindDeclarations (ds : List Declaration) :
    IsBalanced (bindDeclarations ds) := by
  induction ds with
  | nil => exact isBalanced_pure []
  | cons d ds ih =>
    rw [bindDeclarations]
    apply d.isBalanced_bindNames.bind
    intro d
    apply ih.bind_pure

end LiterateFun
