import LiterateFun.Proofs.Lowering.Order

/-!
This module contains what the code of a program declares in a scope: new temporaries, and variables
that are not known around it.
-/

namespace LiterateFun

open Lowering Script

structure Introduces (ids : List Nat) (items : List Item) (code : List Script.Statement)
    (st st' : Lowering.State) : Prop where
  le : st.nextTemporary ≤ st'.nextTemporary
  temporary : ∀ index, .temporary index ∈ declares code →
    st.nextTemporary ≤ index ∧ index < st'.nextTemporary
  named : ∀ v, .variable v ∈ declares code → ∃ x, .bind x ∈ items ∧ v = x.variable ids
  bound : ∀ x, .bind x ∈ items → x.variable ids ∈ st'.declared
  declared : ∀ v, v ∈ st'.declared ↔ v ∈ st.declared ∨ .variable v ∈ declares code
  nodup : (declares code).Nodup

namespace Introduces

variable {ids : List Nat} {K : Known} {items items' : List Item}
  {code code' : List Script.Statement} {st st' st'' : Lowering.State}

theorem nil (ids : List Nat) {items : List Item} (hitems : ∀ x, .bind x ∉ items)
    (st : Lowering.State) : Introduces ids items [] st st := by
  constructor
  · apply Nat.le_refl
  · intro index h
    cases h
  · intro v h
    cases h
  · intro x hx
    exact absurd hx (hitems x)
  · intro v
    simp [declares]
  · exact List.nodup_nil

theorem silent (h : Introduces ids items code st st') {c : Script.Statement}
    (hc : c.declares = []) : Introduces ids items (code ++ [c]) st st' := by
  have hdeclares : declares (code ++ [c]) = declares code := by
    rw [declares_append, declares_singleton, hc, List.append_nil]
  constructor
  · exact h.le
  · rw [hdeclares]
    exact h.temporary
  · rw [hdeclares]
    exact h.named
  · exact h.bound
  · rw [hdeclares]
    exact h.declared
  · rw [hdeclares]
    exact h.nodup

theorem append (h : Introduces ids items code st st')
    (h' : Introduces ids items' code' st' st'') (htracked : tracked ids K (items ++ items')) :
    Introduces ids (items ++ items') (code ++ code') st st'' := by
  rw [tracked_append] at htracked
  constructor
  · exact Nat.le_trans h.le h'.le
  · intro index hindex
    rw [declares_append, List.mem_append] at hindex
    have hle := h.le
    have hle' := h'.le
    cases hindex with
    | inl hindex =>
      have := h.temporary index hindex
      omega
    | inr hindex =>
      have := h'.temporary index hindex
      omega
  · intro v hv
    rw [declares_append, List.mem_append] at hv
    cases hv with
    | inl hv =>
      obtain ⟨x, hx, heq⟩ := h.named v hv
      exact ⟨x, List.mem_append_left _ hx, heq⟩
    | inr hv =>
      obtain ⟨x, hx, heq⟩ := h'.named v hv
      exact ⟨x, List.mem_append_right _ hx, heq⟩
  · intro x hx
    rw [List.mem_append] at hx
    cases hx with
    | inl hx => exact (h'.declared _).2 (.inl (h.bound x hx))
    | inr hx => exact h'.bound x hx
  · intro v
    rw [h'.declared, h.declared, declares_append, List.mem_append, or_assoc]
  · rw [declares_append, List.nodup_append]
    refine ⟨h.nodup, h'.nodup, ?_⟩
    rintro p hp q hq rfl
    match p, hp, hq with
    | .temporary index, hp, hq =>
      have := h.temporary index hp
      have := h'.temporary index hq
      omega
    | .variable v, hp, hq =>
      -- The variables that are made later are none of those that are known by then.
      obtain ⟨x, hx, hvx⟩ := h.named v hp
      obtain ⟨y, hy, hvy⟩ := h'.named v hq
      apply variable_ne_of_tracked htracked.2 (K.after_of_mem hx) hy
      rw [← hvx, hvy]

theorem notMem_declares (h : Introduces ids items code st st') (htracked : tracked ids K items)
    {x : Identifier} (hx : K x) : .variable (x.variable ids) ∉ declares code := by
  intro hmem
  obtain ⟨y, hy, heq⟩ := h.named _ hmem
  exact variable_ne_of_tracked htracked hx hy heq

theorem mem_declares (h : Introduces ids items code st st') (hst : st.declared = [])
    {x : Identifier} (hx : .bind x ∈ items) : .variable (x.variable ids) ∈ declares code := by
  have hdeclared := (h.declared _).1 (h.bound x hx)
  rw [hst] at hdeclared
  exact hdeclared.resolve_left List.not_mem_nil

theorem use (h : Introduces ids items code st st') (x : Identifier) :
    Introduces ids (.use x :: items) code st st' := by
  constructor
  · exact h.le
  · exact h.temporary
  · intro v hv
    obtain ⟨y, hy, heq⟩ := h.named v hv
    exact ⟨y, List.mem_cons_of_mem _ hy, heq⟩
  · intro y hy
    cases hy with
    | tail _ hy => exact h.bound y hy
  · exact h.declared
  · exact h.nodup

theorem newTemporary (h : Introduces ids items code st st') {c : Script.Statement}
    (hc : c.declares = [.temporary st'.nextTemporary]) :
    Introduces ids items (code ++ [c]) st { st' with nextTemporary := st'.nextTemporary + 1 } := by
  have hdeclares : declares (code ++ [c]) = declares code ++ [.temporary st'.nextTemporary] := by
    rw [declares_append, declares_singleton, hc]
  constructor
  · exact Nat.le_succ_of_le h.le
  · intro index hindex
    rw [hdeclares, List.mem_append, List.mem_singleton, Place.temporary.injEq] at hindex
    have hle := h.le
    cases hindex with
    | inl hindex =>
      have := h.temporary index hindex
      simp only
      omega
    | inr heq =>
      simp only
      omega
  · intro v hv
    rw [hdeclares, List.mem_append, List.mem_singleton] at hv
    cases hv with
    | inl hv => exact h.named v hv
    | inr heq => cases heq
  · exact h.bound
  · intro v
    rw [hdeclares, List.mem_append, List.mem_singleton]
    simpa using h.declared v
  · rw [hdeclares, List.nodup_append]
    refine ⟨h.nodup, List.nodup_singleton _, ?_⟩
    rintro p hp q hq rfl
    rw [List.mem_singleton] at hq
    subst hq
    have := h.temporary _ hp
    omega

theorem declareOnce (x : Identifier) (st : Lowering.State) :
    Introduces ids [.bind x] (declareOnce (x.variable ids) st).1 st
      (declareOnce (x.variable ids) st).2 := by
  unfold Lowering.declareOnce
  split
  next hmem =>
    constructor
    · apply Nat.le_refl
    · intro index hindex
      cases hindex
    · intro v hv
      cases hv
    · intro y hy
      rw [List.mem_singleton, Item.bind.injEq] at hy
      rw [hy]
      exact hmem
    · intro v
      simp [declares]
    · exact List.nodup_nil
  · constructor
    · apply Nat.le_refl
    · intro index hindex
      cases hindex with
      | tail _ h => cases h
    · intro v hv
      rw [declares_singleton, Statement.declares, List.mem_singleton, Place.variable.injEq] at hv
      exact ⟨x, List.mem_cons_self, hv⟩
    · intro y hy
      rw [List.mem_singleton, Item.bind.injEq] at hy
      rw [hy]
      exact List.mem_cons_self
    · intro v
      rw [declares_singleton, Statement.declares, List.mem_singleton, Place.variable.injEq,
        List.mem_cons, or_comm]
    · exact List.nodup_singleton _

end Introduces

section

variable {ids : List Nat}

mutual

theorem Expr.lower_introduces (e : Expr) {K : Known} (hassignable : Assignable e.subexpressions)
    (htracked : tracked ids K e.items) (st : Lowering.State) :
    Introduces ids e.items (e.lower ids st).1.code st (e.lower ids st).2 := by
  match e with
  | .string value => exact .nil ids (by simp [Expr.items]) st
  | .number value => exact .nil ids (by simp [Expr.items]) st
  | .identifier x => exact .nil ids (by simp [Expr.items]) st
  | .binary op left right =>
    rw [Expr.subexpressions, assignable_cons (by simp), assignable_append] at hassignable
    have hsplit := tracked_append.1 htracked
    have hleft := left.lower_introduces hassignable.1 hsplit.1 st
    have hright := right.lower_introduces hassignable.2 hsplit.2 (left.lower ids st).2
    exact (hleft.append hright htracked).newTemporary rfl
  | .call callee arguments =>
    rw [Expr.subexpressions, assignable_cons (by simp), assignable_append] at hassignable
    have hsplit := tracked_append.1 htracked
    have hcallee := callee.lower_introduces hassignable.1 hsplit.1 st
    have harguments :=
      Expr.lowerList_introduces arguments hassignable.2 hsplit.2 (callee.lower ids st).2
    exact (hcallee.append harguments htracked).newTemporary rfl
  | .assign target value =>
    obtain ⟨x, rfl⟩ := hassignable target value List.mem_cons_self
    rw [Expr.subexpressions, assignable_assign, assignable_append] at hassignable
    have hsplit : tracked ids K ([.use x] ++ value.items) := htracked
    rw [tracked_append] at hsplit
    exact ((value.lower_introduces hassignable.2 hsplit.2 st).silent rfl).use x
  | .declare x value =>
    rw [Expr.subexpressions, assignable_cons (by simp)] at hassignable
    have hsplit := tracked_append.1 htracked
    have hvalue := value.lower_introduces hassignable hsplit.1 st
    exact (hvalue.append (.declareOnce x _) htracked).silent rfl

theorem Expr.lowerList_introduces (es : List Expr) {K : Known}
    (hassignable : Assignable (Expr.subexpressionsList es))
    (htracked : tracked ids K (Expr.itemsList es)) (st : Lowering.State) :
    Introduces ids (Expr.itemsList es) (Expr.lowerList ids es st).1.code st
      (Expr.lowerList ids es st).2 := by
  match es with
  | [] => exact .nil ids (by simp [Expr.itemsList]) st
  | e :: es =>
    rw [Expr.subexpressionsList, assignable_append] at hassignable
    have hsplit := tracked_append.1 htracked
    have he := e.lower_introduces hassignable.1 hsplit.1 st
    have hes := Expr.lowerList_introduces es hassignable.2 hsplit.2 (e.lower ids st).2
    exact he.append hes htracked

end

theorem introduces_conditional {items : List Item} {setup : List Script.Statement}
    {st st' : Lowering.State} (h : Introduces ids items setup { st with declared := [] } st')
    {items' : List Item} (hitems' : ∀ x, .bind x ∉ items') (condition : Value)
    (consequent : List Script.Statement) (alternative : Option (List Script.Statement)) :
    Introduces ids items' [.conditional setup condition consequent alternative] st
      { st' with declared := st.declared } := by
  constructor
  · exact h.le
  · intro index hindex
    cases hindex
  · intro v hv
    cases hv
  · intro x hx
    exact absurd hx (hitems' x)
  · intro v
    simp [declares, Statement.declares]
  · exact List.nodup_nil

theorem Declaration.bind_notMem_items (d : Declaration) (x : Identifier) : .bind x ∉ d.items := by
  cases d <;> simp [Declaration.items]

theorem Statement.lower_introduces (st : Statement) {K : Known}
    (hassignable : Assignable st.subexpressions) (htracked : tracked ids K st.items)
    (ls : Lowering.State) :
    Introduces ids st.items (st.lower ids ls).1 ls (st.lower ids ls).2 := by
  match st with
  | .expression value => exact (value.lower_introduces hassignable htracked ls).silent rfl
  | .return value => exact (value.lower_introduces hassignable htracked ls).silent rfl
  | .declaration d => exact .nil ids d.bind_notMem_items ls
  | .conditional condition consequent none =>
    rw [Statement.subexpressions, assignable_append] at hassignable
    rw [Statement.items, tracked_singleton, Item.Tracked, tracked_append] at htracked
    exact introduces_conditional
      (condition.lower_introduces hassignable.1 htracked.1 { ls with declared := [] })
      (by simp [Statement.items]) _ _ _
  | .conditional condition consequent (some alternative) =>
    rw [Statement.subexpressions, assignable_append, assignable_append] at hassignable
    rw [Statement.items, tracked_singleton, Item.Tracked, tracked_append, tracked_append]
      at htracked
    exact introduces_conditional
      (condition.lower_introduces hassignable.1.1 htracked.1.1 { ls with declared := [] })
      (by simp [Statement.items]) _ _ _

theorem lowerStatements_introduces (b : List Statement) {K : Known}
    (hassignable : Assignable (blockSubexpressions b)) (htracked : tracked ids K (blockItems b))
    (ls : Lowering.State) :
    Introduces ids (blockItems b) (lowerStatements ids b ls).1 ls (lowerStatements ids b ls).2 := by
  induction b generalizing K ls with
  | nil => exact .nil ids (by simp [blockItems]) ls
  | cons st b ih =>
    rw [blockSubexpressions, assignable_append] at hassignable
    have hsplit := tracked_append.1 htracked
    have hst := st.lower_introduces hassignable.1 hsplit.1 ls
    exact hst.append (ih hassignable.2 hsplit.2 (st.lower ids ls).2) htracked

end

end LiterateFun
