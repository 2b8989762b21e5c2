import LiterateFun.Proofs.Lowering.Declared
import LiterateFun.Proofs.Lowering.DeclarationFree

/-!
This module contains the code of statements. If there are no declarations, and no operand has an `=`
in it, then the code has the outcome and the calls that the statements have, and it changes the
variables that are known around it as they do, and nothing else.
-/

namespace LiterateFun

open Lowering Script

variable {V : Type}

section

variable {ids : List Nat} {K : Known} {st st' : Lowering.State} {w w' : World V} {s t : Machine V}

theorem Corresponds.restrict {items : List Item} (h : Corresponds ids (K.after items) st w s) :
    Corresponds ids K {} w s := by
  constructor
  · intro x y hx hy
    exact h.coherent x y (K.after_of_known hx items) (K.after_of_known hy items)
  · intro x hx
    exact h.store x (K.after_of_known hx items)
  · exact h.calls
  · intro v hv
    cases hv

theorem Corresponds.withDeclared (h : Corresponds ids K st w s)
    (hdeclared : ∀ v ∈ st'.declared, (s.memory (.variable v)).isSome) :
    Corresponds ids K st' w s :=
  ⟨h.coherent, h.store, h.calls, hdeclared⟩

def Confined (ids : List Nat) (K : Known) (places : List Place) (s t : Machine V) : Prop :=
  ∀ p ∉ places, (∀ x, K x → p ≠ .variable (x.variable ids)) → t.memory p = s.memory p

theorem Confined.mono {K' : Known} {places places' : List Place} (h : Confined ids K places s t)
    (hK : ∀ x, K x → K' x) (hplaces : places ⊆ places') : Confined ids K' places' s t := by
  intro p hp hx
  exact h p (fun hmem => hp (hplaces hmem)) fun x hKx => hx x (hK x hKx)

theorem Confined.trans {places : List Place} {u : Machine V} (h : Confined ids K places s t)
    (h' : Confined ids K places t u) : Confined ids K places s u := by
  intro p hp hx
  rw [h' p hp hx, h p hp hx]

theorem Leads.confined {I : Interpretation V} {items : List Item} {code : List Script.Statement}
    (h : Leads I ids K items code st st' w w' s t) :
    Confined ids (K.after items) (declares code) s t := by
  intro p hp hx
  cases p with
  | «variable» v =>
    apply h.memory_frame
    intro x hKx heq
    exact hx x hKx (congrArg Place.variable heq.symm)
  | temporary index => exact h.undeclared index hp

theorem Introduces.confined {items : List Item} {code : List Script.Statement}
    (h : Introduces ids items code st st') (hst : st.declared = [])
    (hconfined : Confined ids (K.after items) (declares code) s t) :
    Confined ids K (declares code) s t := by
  -- What is bound in a scope is declared in it, so that it is not changed outside.
  intro p hp hx
  apply hconfined p hp
  rintro x (hKx | ⟨y, hy, hname, hid⟩) rfl
  · exact hx x hKx rfl
  · rw [x.variable_congr hname hid] at hp
    exact hp (h.mem_declares hst hy)

/-- A part of a script has the result `r`, and changes nothing but known variables and places. -/
def HasResult (ids : List Nat) (K : Known) (places : List Place) (f : Machine V → Result V)
    (r : Outcome V × World V) (s : Machine V) : Prop :=
  ∃ t, f s = some (r.1, t) ∧ Corresponds ids K {} r.2 t ∧ Confined ids K places s t

theorem hasResult_inScope {places : List Place} (hnodup : places.Nodup)
    (hplaces : ∀ x, K x → .variable (x.variable ids) ∉ places) (h : Corresponds ids K st w s)
    {f : Machine V → Result V} {r : Outcome V × World V}
    (hf : ∀ s, Corresponds ids K {} w s → HasResult ids K places f r s) :
    HasResult ids K [] (inScope places f) r s := by
  have henter : Corresponds ids K {} w (s.enter places) := by
    constructor
    · exact h.coherent
    · intro x hx
      rw [Machine.memory_enter_of_notMem (hplaces x hx)]
      exact h.store x hx
    · exact h.calls
    · intro v hv
      cases hv
  obtain ⟨t, hexec, ht, hconfined⟩ := hf _ henter
  refine ⟨t.leave places s, ?_, ?_, ?_⟩
  · rw [inScope, if_pos hnodup, hexec]
    rfl
  · constructor
    · exact ht.coherent
    · intro x hx
      rw [Machine.memory_leave_of_notMem (hplaces x hx)]
      exact ht.store x hx
    · exact ht.calls
    · intro v hv
      cases hv
  · intro p _ hp
    by_cases hmem : p ∈ places
    · exact if_pos hmem
    · rw [Machine.memory_leave_of_notMem hmem, hconfined p hmem hp,
        Machine.memory_enter_of_notMem hmem]

theorem Expr.exec_lower_eval {e : Expr} (I : Interpretation V)
    (hassignable : Assignable e.subexpressions) (htracked : tracked ids K e.items)
    (hoperands : OperandsAssignNothing e.subexpressions) (h : Corresponds ids K st w s) :
    ∃ t, execAll I (e.lower ids st).1.code s = some (.next, t) ∧
      Corresponds ids (K.after e.items) (e.lower ids st).2 (e.eval I w).2 t ∧
      Confined ids (K.after e.items) (declares (e.lower ids st).1.code) s t ∧
      (e.lower ids st).1.value.read I t = some (e.eval I w).1 := by
  obtain ⟨t, hleads, hvalue⟩ := e.lower_leads (I := I) hassignable htracked h
  obtain ⟨hworld, hresult⟩ := e.evalLate_eq_eval (I := I) hassignable htracked
    (Expr.ordered_of_operandsAssignNothing hoperands) w
  have hread := hvalue.read_eq hleads.corresponds
  have hcorresponds := hleads.corresponds
  rw [hworld] at hread hcorresponds
  rw [hresult] at hread
  exact ⟨t, hleads.exec, hcorresponds, hleads.confined, hread⟩

/-- The code of statements whose result is `r` leads from `s` to `t`. -/
structure Follows (I : Interpretation V) (ids : List Nat) (K : Known) (items : List Item)
    (code : List Script.Statement) (st' : Lowering.State) (r : Outcome V × World V)
    (s t : Machine V) : Prop where
  exec : execAll I code s = some (r.1, t)
  corresponds : Corresponds ids K {} r.2 t
  next : r.1 = .next → Corresponds ids (K.after items) st' r.2 t
  confined : Confined ids (K.after items) (declares code) s t

theorem hasResult_execScope {I : Interpretation V} {b : List Statement}
    (hassignable : Assignable (blockSubexpressions b)) (htracked : tracked ids K (blockItems b))
    {r : Outcome V × World V} {st' : Lowering.State}
    (hfollows : ∀ s, Corresponds ids K {} w s →
      ∃ t, Follows I ids K (blockItems b) (lowerStatements ids b {}).1 st' r s t)
    (h : Corresponds ids K st w s) :
    HasResult ids K [] (execScope I (lowerStatements ids b {}).1) r s := by
  have hintroduces := lowerStatements_introduces b hassignable htracked {}
  apply hasResult_inScope hintroduces.nodup _ h
  · intro s hs
    obtain ⟨t, ht⟩ := hfollows s hs
    exact ⟨t, ht.exec, ht.corresponds, hintroduces.confined rfl ht.confined⟩
  · intro x hx
    exact hintroduces.notMem_declares htracked hx

theorem hasResult_condition (I : Interpretation V) {condition : Expr}
    (yes no : Machine V → Result V) (r : Outcome V × World V)
    (hassignable : Assignable condition.subexpressions) (htracked : tracked ids K condition.items)
    (hoperands : OperandsAssignNothing condition.subexpressions) (h : Corresponds ids K st w s)
    (hbranch : ∀ s, Corresponds ids (K.after condition.items) {} (condition.eval I w).2 s →
      HasResult ids (K.after condition.items) []
        (fun s => if I.truthy (condition.eval I w).1 then yes s else no s) r s) :
    HasResult ids K [] (inScope (declares (inBraces (condition.lower ids) st).1.code)
      fun s => andThen (execAll I (inBraces (condition.lower ids) st).1.code s)
        (choose I (inBraces (condition.lower ids) st).1.value yes no)) r s := by
  have hintroduces := condition.lower_introduces hassignable htracked { st with declared := [] }
  apply hasResult_inScope hintroduces.nodup _ h
  · intro s hs
    have hs' : Corresponds ids K { st with declared := [] } w s := hs.withDeclared hs.declared
    obtain ⟨t, hexec, ht, hconfined, hread⟩ :=
      Expr.exec_lower_eval I hassignable htracked hoperands hs'
    obtain ⟨t', hexec', ht', hconfined'⟩ :=
      hbranch t (ht.withDeclared fun v hv => absurd hv List.not_mem_nil)
    refine ⟨t', ?_, ht'.restrict, ?_⟩
    · have hsetup : execAll I (inBraces (condition.lower ids) st).1.code s = some (.next, t) :=
        hexec
      have hvalue : (inBraces (condition.lower ids) st).1.value.read I t =
          some (condition.eval I w).1 := hread
      change andThen _ (choose I _ yes no) = _
      rw [hsetup, andThen, choose, hvalue]
      exact hexec'
    · apply hintroduces.confined rfl
      exact hconfined.trans (hconfined'.mono (fun _ hx => hx) (List.nil_subset _))
  · intro x hx
    exact hintroduces.notMem_declares htracked hx

theorem follows_conditional {I : Interpretation V} {c : Script.Statement} {r : Outcome V × World V}
    (h : Corresponds ids K st w s) (hc : HasResult ids K [] (c.exec I) r s)
    (hdeclared : st'.declared = st.declared) (declared : List (String × Identifier))
    (items : List Item) : ∃ t, Follows I ids K [.scope declared items] [c] st' r s t := by
  obtain ⟨t, hexec, ht, hconfined⟩ := hc
  refine ⟨t, ?_, ht, ?_, ?_⟩
  · rw [execAll_singleton, hexec]
  · intro _
    rw [Known.after_scope]
    apply ht.withDeclared
    intro v hv
    rw [hdeclared] at hv
    exact keepsPlaces_exec I c s _ t hexec _ (h.declared v hv)
  · rw [Known.after_scope]
    exact hconfined.mono (fun _ hx => hx) (List.nil_subset _)

theorem follows_expression {I : Interpretation V} {items : List Item}
    {code : List Script.Statement} {c : Script.Statement} {r : Outcome V × World V}
    (hexec : execAll I code s = some (.next, t)) (ht : Corresponds ids (K.after items) st' r.2 t)
    (hconfined : Confined ids (K.after items) (declares code) s t)
    (hc : c.exec I t = some (r.1, t)) : Follows I ids K items (code ++ [c]) st' r s t := by
  refine ⟨?_, ht.restrict, fun _ => ht, hconfined.mono (fun _ hx => hx) ?_⟩
  · rw [execAll_append_of_next hexec, execAll_singleton, hc]
  · rw [declares_append]
    exact List.subset_append_left _ _

mutual

theorem Statement.lower_follows (I : Interpretation V) (st : Statement) {K : Known}
    {ls : Lowering.State} {w : World V} {s : Machine V} (hfree : st.DeclarationFree)
    (hassignable : Assignable st.subexpressions) (htracked : tracked ids K st.items)
    (hoperands : OperandsAssignNothing st.subexpressions) (h : Corresponds ids K ls w s) :
    ∃ t, Follows I ids K st.items (st.lower ids ls).1 (st.lower ids ls).2 (st.run I w) s t := by
  match st with
  | .expression value =>
    obtain ⟨t, hexec, ht, hconfined, hread⟩ :=
      Expr.exec_lower_eval I hassignable htracked hoperands h
    refine ⟨t, follows_expression hexec ht hconfined ?_⟩
    rw [Statement.exec, hread]
    rfl
  | .return value =>
    obtain ⟨t, hexec, ht, hconfined, hread⟩ :=
      Expr.exec_lower_eval I hassignable htracked hoperands h
    refine ⟨t, follows_expression hexec ht hconfined ?_⟩
    rw [Statement.exec, hread]
    rfl
  | .declaration d => cases hfree
  | .conditional condition consequent none =>
    rw [Statement.subexpressions, assignable_append] at hassignable
    rw [Statement.subexpressions, operandsAssignNothing_append] at hoperands
    rw [Statement.items, tracked_singleton, Item.Tracked, tracked_append, tracked_singleton,
      Item.Tracked] at htracked
    have hresult := hasResult_condition I
      (execScope I (lowerStatements ids consequent {}).1) (fun s => some (.next, s))
      (Statement.run I (.conditional condition consequent none) w)
      hassignable.1 htracked.1 hoperands.1 h (by
        intro s hs
        rw [run_conditional_none]
        split
        · exact hasResult_execScope hassignable.2 htracked.2 (fun s hs =>
            lowerStatements_follows I consequent hfree hassignable.2 htracked.2 hoperands.2 hs) hs
        · exact ⟨s, rfl, hs, fun _ _ _ => rfl⟩)
    rw [Statement.items]
    simp only [Statement.lower, bind_apply, pure_apply, assemble_of_declarationFree hfree]
    refine follows_conditional h ?_ ?_ _ _
    · exact hresult
    · rfl
  | .conditional condition consequent (some alternative) =>
    rw [Statement.subexpressions, assignable_append, assignable_append] at hassignable
    rw [Statement.subexpressions, operandsAssignNothing_append, operandsAssignNothing_append]
      at hoperands
    rw [Statement.items, tracked_singleton, Item.Tracked, tracked_append, tracked_append,
      tracked_singleton, tracked_singleton, Item.Tracked, Item.Tracked, ← Known.after_append,
      Known.after_scope] at htracked
    have hresult := hasResult_condition I
      (execScope I (lowerStatements ids consequent {}).1)
      (execScope I (lowerStatements ids alternative {}).1)
      (Statement.run I (.conditional condition consequent (some alternative)) w)
      hassignable.1.1 htracked.1.1 hoperands.1.1 h (by
        intro s hs
        rw [run_conditional_some]
        split
        · exact hasResult_execScope hassignable.1.2 htracked.1.2 (fun s hs =>
            lowerStatements_follows I consequent hfree.1 hassignable.1.2 htracked.1.2
              hoperands.1.2 hs) hs
        · exact hasResult_execScope hassignable.2 htracked.2 (fun s hs =>
            lowerStatements_follows I alternative hfree.2 hassignable.2 htracked.2
              hoperands.2 hs) hs)
    rw [Statement.items]
    simp only [Statement.lower, bind_apply, pure_apply, assemble_of_declarationFree hfree.1,
      assemble_of_declarationFree hfree.2]
    refine follows_conditional h ?_ ?_ _ _
    · exact hresult
    · rfl

theorem lowerStatements_follows (I : Interpretation V) (b : List Statement) {K : Known}
    {ls : Lowering.State} {w : World V} {s : Machine V} (hfree : declarationFree b)
    (hassignable : Assignable (blockSubexpressions b)) (htracked : tracked ids K (blockItems b))
    (hoperands : OperandsAssignNothing (blockSubexpressions b)) (h : Corresponds ids K ls w s) :
    ∃ t, Follows I ids K (blockItems b) (lowerStatements ids b ls).1 (lowerStatements ids b ls).2
      (runStatements I b w) s t := by
  match b with
  | [] =>
    refine ⟨s, rfl, ?_, fun _ => ?_, fun _ _ _ => rfl⟩
    · exact h.withDeclared fun v hv => absurd hv List.not_mem_nil
    · rw [blockItems, Known.after_nil]
      exact h
  | st :: b =>
    rw [blockSubexpressions, assignable_append] at hassignable
    rw [blockSubexpressions, operandsAssignNothing_append] at hoperands
    rw [blockItems, tracked_append] at htracked
    obtain ⟨t, ht⟩ := st.lower_follows I hfree.1 hassignable.1 htracked.1 hoperands.1 h
    have hcode : (lowerStatements ids (st :: b) ls).1 =
        (st.lower ids ls).1 ++ (lowerStatements ids b (st.lower ids ls).2).1 := rfl
    rw [hcode, blockItems]
    have hconfined : Confined ids (K.after (st.items ++ blockItems b))
        (declares ((st.lower ids ls).1 ++ (lowerStatements ids b (st.lower ids ls).2).1)) s t := by
      rw [declares_append, ← Known.after_append]
      exact ht.confined.mono (fun _ hx => Known.after_of_known hx _) (List.subset_append_left _ _)
    have hexec := ht.exec
    -- A returned value ends the code where it ends the block.
    cases ho : (st.run I w).1 with
    | returned value =>
      rw [runStatements_cons_returned ho]
      refine ⟨t, ?_, ht.corresponds, ?_, hconfined⟩
      · rw [execAll_append, hexec, ho, andThen]
        simp
      · intro hnext
        cases hnext
    | next =>
      rw [runStatements_cons_next ho]
      obtain ⟨t', ht'⟩ := lowerStatements_follows I b hfree.2 hassignable.2 htracked.2 hoperands.2
        (ht.next ho)
      rw [ho] at hexec
      refine ⟨t', ?_, ht'.corresponds.restrict, fun h => ?_, hconfined.trans ?_⟩
      · rw [execAll_append_of_next hexec, ht'.exec]
      · rw [← Known.after_append]
        exact ht'.next h
      · rw [declares_append, ← Known.after_append]
        exact ht'.confined.mono (fun _ hx => hx) (List.subset_append_right _ _)

end

end

end LiterateFun
