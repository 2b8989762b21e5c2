import LiterateFun.Proofs.Lowering.Order

/-!
This module contains blocks without declarations, and blocks in which no operand has an `=` in it.
-/

namespace LiterateFun

open Lowering Script

mutual

def Statement.DeclarationFree : Statement → Prop
  | .expression _ => True
  | .return _ => True
  | .conditional _ consequent none => declarationFree consequent
  | .conditional _ consequent (some alternative) =>
    declarationFree consequent ∧ declarationFree alternative
  | .declaration _ => False

def declarationFree : List Statement → Prop
  | [] => True
  | s :: b => s.DeclarationFree ∧ declarationFree b

end

/-- No operand of an operation or a call has an `=` in it. -/
def OperandsAssignNothing (es : List Expr) : Prop :=
  ∀ e ∈ es, ∀ a ∈ e.operands, ∀ target value, .assign target value ∉ a.subexpressions

theorem operandsAssignNothing_append {es₁ es₂ : List Expr} :
    OperandsAssignNothing (es₁ ++ es₂) ↔
      OperandsAssignNothing es₁ ∧ OperandsAssignNothing es₂ := by
  simp only [OperandsAssignNothing, List.mem_append]
  constructor
  · intro h
    exact ⟨fun e he => h e (.inl he), fun e he => h e (.inr he)⟩
  · rintro ⟨h₁, h₂⟩ e (he | he)
    · exact h₁ e he
    · exact h₂ e he

theorem Expr.ordered_of_operandsAssignNothing {e : Expr}
    (h : OperandsAssignNothing e.subexpressions) : e.Ordered := by
  intro a ha
  apply List.pairwise_of_forall_mem_list
  rintro left - right hright id - ⟨x, value, hmem, -⟩
  exact h a ha right hright _ _ hmem

theorem lowerDeclarations_of_declarationFree {b : List Statement} (h : declarationFree b)
    (ids : List Nat) : lowerDeclarations ids b = [] := by
  induction b with
  | nil => rfl
  | cons st b ih =>
    cases st with
    | declaration d => cases h.1
    | _ => exact ih h.2

theorem assemble_of_declarationFree {b : List Statement} (h : declarationFree b)
    (ids : List Nat) :
    assemble (lowerDeclarations ids b) (lowerStatements ids b) = (lowerStatements ids b {}).1 := by
  rw [lowerDeclarations_of_declarationFree h]
  rfl

theorem hoisted_of_declarationFree {b : List Statement} (h : declarationFree b) :
    Block.hoisted b = [] := by
  induction b with
  | nil => rfl
  | cons st b ih =>
    cases st with
    | declaration d => cases h.1
    | _ => exact ih h.2

theorem Expr.not_declares {e : Expr} {i : Item} (hi : i ∈ e.items)
    {declared : List (String × Identifier)} : ¬i.Declares declared := by
  intro h
  cases h with
  | self => exact e.scope_notMem_items _ _ hi
  | scope hj h => exact e.scope_notMem_items _ _ hi

theorem declares_nil_of_scope {b : List Statement} (h : declarationFree b)
    {declared : List (String × Identifier)}
    (hitems : ∀ i ∈ blockItems b, i.Declares declared → declared = [])
    (hdeclares : (Item.scope (Block.hoisted b) (blockItems b)).Declares declared) :
    declared = [] := by
  rw [hoisted_of_declarationFree h, Item.declares_scope_iff] at hdeclares
  cases hdeclares with
  | inl heq => exact heq
  | inr hinner =>
    obtain ⟨i, hi, hdeclares⟩ := hinner
    exact hitems i hi hdeclares

mutual

theorem Statement.declares_nil (st : Statement) (h : st.DeclarationFree) {i : Item}
    (hi : i ∈ st.items) {declared : List (String × Identifier)} (hdeclares : i.Declares declared) :
    declared = [] := by
  match st with
  | .expression value => exact absurd hdeclares (Expr.not_declares hi)
  | .return value => exact absurd hdeclares (Expr.not_declares hi)
  | .declaration d => cases h
  | .conditional condition consequent none =>
    rw [Statement.DeclarationFree] at h
    rw [Statement.items, List.mem_singleton] at hi
    rw [hi, Item.declares_scope_iff] at hdeclares
    rcases hdeclares with heq | ⟨j, hj, hdeclares⟩
    · exact heq
    · rw [List.mem_append, List.mem_singleton] at hj
      rcases hj with hj | rfl
      · exact absurd hdeclares (Expr.not_declares hj)
      · exact declares_nil_of_scope h (fun i hi => declares_nil consequent h hi) hdeclares
  | .conditional condition consequent (some alternative) =>
    rw [Statement.DeclarationFree] at h
    rw [Statement.items, List.mem_singleton] at hi
    rw [hi, Item.declares_scope_iff] at hdeclares
    rcases hdeclares with heq | ⟨j, hj, hdeclares⟩
    · exact heq
    · rw [List.mem_append, List.mem_append, List.mem_singleton, List.mem_singleton] at hj
      rcases hj with (hj | rfl) | rfl
      · exact absurd hdeclares (Expr.not_declares hj)
      · exact declares_nil_of_scope h.1 (fun i hi => declares_nil consequent h.1 hi) hdeclares
      · exact declares_nil_of_scope h.2 (fun i hi => declares_nil alternative h.2 hi) hdeclares

theorem declares_nil (b : List Statement) (h : declarationFree b) {i : Item}
    (hi : i ∈ blockItems b) {declared : List (String × Identifier)}
    (hdeclares : i.Declares declared) : declared = [] := by
  match b with
  | [] => cases hi
  | st :: b =>
    rw [blockItems, List.mem_append] at hi
    cases hi with
    | inl hi => exact st.declares_nil h.1 hi hdeclares
    | inr hi => exact declares_nil b h.2 hi hdeclares

end

mutual

theorem Statement.idsOf_perm (st : Statement) (hfree : st.DeclarationFree)
    (h : Assignable st.subexpressions) :
    (idsOf (definitionsOf st.items)).Perm st.declaredIds := by
  match st with
  | .expression value => exact value.idsOf_perm h
  | .return value => exact value.idsOf_perm h
  | .declaration d => cases hfree
  | .conditional condition consequent none =>
    rw [Statement.subexpressions, assignable_append] at h
    rw [Statement.DeclarationFree] at hfree
    simp only [Statement.items, definitionsOf, Item.definitions, definitionsOf_append,
      hoisted_of_declarationFree hfree, List.nil_append, List.append_nil, idsOf_append,
      Statement.declaredIds]
    exact (condition.idsOf_perm h.1).append (idsOf_perm_block consequent hfree h.2)
  | .conditional condition consequent (some alternative) =>
    rw [Statement.subexpressions, assignable_append, assignable_append] at h
    rw [Statement.DeclarationFree] at hfree
    simp only [Statement.items, definitionsOf, Item.definitions, definitionsOf_append,
      hoisted_of_declarationFree hfree.1, hoisted_of_declarationFree hfree.2, List.nil_append,
      List.append_nil, idsOf_append, Statement.declaredIds]
    exact ((condition.idsOf_perm h.1.1).append
      (idsOf_perm_block consequent hfree.1 h.1.2)).append (idsOf_perm_block alternative hfree.2 h.2)

theorem idsOf_perm_block (b : List Statement) (hfree : declarationFree b)
    (h : Assignable (blockSubexpressions b)) :
    (idsOf (definitionsOf (blockItems b))).Perm (blockDeclaredIds b) := by
  match b with
  | [] => exact .nil
  | st :: b =>
    rw [blockSubexpressions, assignable_append] at h
    rw [blockItems, definitionsOf_append, idsOf_append]
    exact (st.idsOf_perm hfree.1 h.1).append (idsOf_perm_block b hfree.2 h.2)

end

end LiterateFun
