import LiterateFun.Proofs.Scoping.Hoisting

/-!
This module contains the correctness of the resolution of statements, declarations and blocks.
-/

namespace LiterateFun

namespace Resolution

theorem items_withName (d : Declaration) (name : Identifier) :
    (d.withName name).items = d.items := by
  cases d <;> rfl

theorem blockItems_withNames (b : Block) (names : List Identifier) :
    blockItems (b.withNames names) = blockItems b := by
  induction b generalizing names with
  | nil => rfl
  | cons st b ih =>
    by_cases hd : ∃ d, st = .declaration d
    · obtain ⟨d, rfl⟩ := hd
      cases names with
      | nil =>
        rw [Block.withNames, blockItems, blockItems, ih]
        intro _ _ _ h
        cases h
      | cons name names =>
        rw [Block.withNames, blockItems, blockItems, ih, Statement.items, Statement.items,
          items_withName]
    · rw [Block.withNames_cons fun d h => hd ⟨d, h⟩, blockItems, blockItems, ih]

theorem resolves_inBlock {around : Surroundings} {es : List Expr} {b : Block}
    {f : Surroundings → Step Block}
    (hf : ∀ around, Resolves around es (blockItems b) (f around) blockItems)
    (hsame : ∀ around s, relabelStatements Identifier.forgetId (f around s).1 =
      relabelStatements Identifier.forgetId b) :
    Resolves around es [b.tree] (inBlock around b f) fun b => [b.tree] := by
  apply resolves_inScope (hoists_hoist b) hf
  · intro around s
    rfl
  · intro around s
    simp only [bind_apply, pure_apply, Block.tree]
    rw [blockItems_withNames, (withNames_of_same (hsame _ _) (map_forgetId_hoist b s)).2]

theorem resolves_callable {around : Surroundings} {es : List Expr} {parameters : List Identifier}
    {b : Block} {f : Surroundings → Step Block}
    (hf : ∀ around, Resolves around es [b.tree] (f around) fun b => [b.tree])
    (make : List Identifier → Block → Declaration) {out : Declaration → List Item}
    (hout : ∀ parameters b, out (make parameters b) =
      [.scope (parametersDeclared parameters) [b.tree]]) :
    Resolves around es [.scope (parametersDeclared parameters) [b.tree]]
      (inScope around fun around => do
        let parameters ← resolveParameters parameters
        let b ← f around
        return make parameters b) out := by
  apply resolves_inScope (hoists_resolveParameters parameters) hf
  · intro around s
    rfl
  · intro around s
    simp only [bind_apply, pure_apply, hout]

mutual

theorem resolves_statement (around : Surroundings) (st : Statement) :
    Resolves around st.subexpressions st.items (st.resolve around) Statement.items := by
  match st with
  | .expression value =>
    apply (resolves_expr around value).congr
    · rfl
    · intro s
      rfl
    · intro s
      rfl
  | .return value =>
    apply (resolves_expr around value).congr
    · rfl
    · intro s
      rfl
    · intro s
      rfl
  | .declaration d =>
    apply (resolves_declaration around d).congr
    · rfl
    · intro s
      rfl
    · intro s
      rfl
  | .conditional condition consequent none =>
    rw [Statement.subexpressions, Statement.items, Statement.resolve]
    apply resolves_inScope (hoists_reserveNames condition)
    · intro around
      exact (resolves_expr around condition).pair (resolves_block around consequent)
    · intro around s
      rfl
    · intro around s
      rfl
  | .conditional condition consequent (some alternative) =>
    rw [Statement.subexpressions, Statement.items, Statement.resolve]
    apply resolves_inScope (hoists_reserveNames condition)
    · intro around
      exact ((resolves_expr around condition).pair (resolves_block around consequent)).pair
        (resolves_block around alternative)
    · intro around s
      rfl
    · intro around s
      rfl

theorem resolves_declaration (around : Surroundings) (d : Declaration) :
    Resolves around d.subexpressions d.items (d.resolve around) Declaration.items := by
  match d with
  | .class name body =>
    apply (resolves_block around body).congr
    · rfl
    · intro s
      rfl
    · intro s
      rfl
  | .function name parameters body =>
    apply resolves_callable (fun around => resolves_block around body)
    intro parameters b
    rfl
  | .method owner name parameters body =>
    have hcallable : Resolves around (blockSubexpressions body)
        (Declaration.items (.function name parameters body))
        (Declaration.resolve around (.function name parameters body)) Declaration.items := by
      apply resolves_callable (fun around => resolves_block around body)
      intro parameters b
      rfl
    apply (resolves_refer around owner).append hcallable
    · rfl
    · intro s
      rfl
    · intro s
      rfl

theorem resolves_statements (around : Surroundings) (b : List Statement) :
    Resolves around (blockSubexpressions b) (blockItems b) (resolveStatements around b)
      blockItems := by
  match b with
  | [] =>
    apply resolves_pure
    · exact assignable_nil
    · rfl
  | st :: b =>
    apply (resolves_statement around st).append (resolves_statements around b)
    · rfl
    · intro s
      rfl
    · intro s
      rfl

theorem resolves_block (around : Surroundings) (b : Block) :
    Resolves around (blockSubexpressions b) [b.tree]
      (inBlock around b (resolveStatements · b)) fun b => [b.tree] :=
  resolves_inBlock (fun around => resolves_statements around b)
    fun around s => relabelStatements_resolve around b s

end

end Resolution

end LiterateFun
