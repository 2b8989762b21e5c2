import LiterateFun.Proofs.Execution
import LiterateFun.Proofs.Scoping.Accepted

/-!
This module contains what the code of a lowered expression does. The results of operations and calls
are kept in temporaries, but an identifier or an assignment is only named by its variable, which is
read when the operation that it is an operand of takes place.
-/

namespace LiterateFun

open Lowering Script

variable {V : Type}

inductive Operand (V : Type)
  | value (v : V)
  /-- The value that the binding will have then. -/
  | binding (id : Option Nat)

def Operand.read (w : World V) : Operand V → V
  | .value v => v
  | .binding id => w.store id

theorem Operand.read_value (w : World V) (v : V) : (Operand.value v).read w = v := rfl

theorem Operand.read_binding (w : World V) (id : Option Nat) :
    (Operand.binding id).read w = w.store id := rfl

def World.assignOperand (x : Identifier) (o : Operand V) : StateM (World V) (Operand V) := do
  let w ← get
  let _ ← World.assign x (o.read w)
  return .binding x.id

mutual

/-- Evaluate an expression from left to right, but read bindings as late as possible. -/
def Expr.evalLate (I : Interpretation V) : Expr → StateM (World V) (Operand V)
  | .string value => return .value (I.string value)
  | .number value => return .value (I.number value)
  | .identifier x => return .binding x.id
  | .binary op left right => do
    let left ← left.evalLate I
    let right ← right.evalLate I
    let w ← get
    return .value (I.binary op (left.read w) (right.read w))
  | .call callee arguments => do
    let callee ← callee.evalLate I
    let arguments ← Expr.evalLateList I arguments
    let w ← get
    let result ← World.call I ⟨callee.read w, arguments.map (Operand.read w)⟩
    return .value result
  | .assign (.identifier x) value => do
    let value ← value.evalLate I
    World.assignOperand x value
  | .assign _ value => value.evalLate I
  | .declare x value => do
    let value ← value.evalLate I
    World.assignOperand x value

def Expr.evalLateList (I : Interpretation V) : List Expr → StateM (World V) (List (Operand V))
  | [] => return []
  | e :: es => do
    let e ← e.evalLate I
    let es ← Expr.evalLateList I es
    return e :: es

end

/-- A world and a machine that agree at a point of a program where `K` is known. -/
structure Corresponds (ids : List Nat) (K : Known) (st : Lowering.State) (w : World V)
    (s : Machine V) : Prop where
  coherent : Coherent ids K
  store : ∀ x, K x → s.memory (.variable (x.variable ids)) = some (w.store x.id)
  calls : s.calls = w.calls
  declared : ∀ v ∈ st.declared, (s.memory (.variable v)).isSome

structure Leads (I : Interpretation V) (ids : List Nat) (K : Known) (items : List Item)
    (code : List Script.Statement) (st st' : Lowering.State) (w w' : World V) (s t : Machine V) :
    Prop where
  exec : execAll I code s = some (.next, t)
  corresponds : Corresponds ids (K.after items) st' w' t
  le : st.nextTemporary ≤ st'.nextTemporary
  /-- Temporaries that are in use stay as they are. -/
  temporaries : ∀ index < st.nextTemporary,
    t.memory (.temporary index) = s.memory (.temporary index)
  undeclared : ∀ index, .temporary index ∉ declares code →
    t.memory (.temporary index) = s.memory (.temporary index)
  /-- All other variables stay as they are. -/
  memory_frame : ∀ v, (∀ x, K.after items x → x.variable ids ≠ v) →
    t.memory (.variable v) = s.memory (.variable v)
  store_frame : ∀ id, (∀ x, K.after items x → x.id ≠ id) → w'.store id = w.store id

inductive Denotes (I : Interpretation V) (ids : List Nat) (K : Known) (next : Nat) (s : Machine V) :
    Value → Operand V → Prop
  | string (value : String) : Denotes I ids K next s (.string value) (.value (I.string value))
  | number (value : Number) : Denotes I ids K next s (.number value) (.value (I.number value))
  | temporary {index : Nat} {v : V} (hindex : index < next)
      (hv : s.memory (.temporary index) = some v) :
      Denotes I ids K next s (.temporary index) (.value v)
  | named {x : Identifier} (hx : K x) :
      Denotes I ids K next s (.variable (x.variable ids)) (.binding x.id)

section

variable {I : Interpretation V} {ids : List Nat} {K : Known} {items items' : List Item}
  {code code' : List Script.Statement} {st st' st'' : Lowering.State} {w w' w'' : World V}
  {s t t' : Machine V} {next : Nat} {value : Value} {o : Operand V} {x : Identifier} {v : V}

theorem Denotes.read_eq (h : Denotes I ids K next s value o) (hs : Corresponds ids K st w s) :
    value.read I s = some (o.read w) := by
  cases h with
  | string value => rfl
  | number value => rfl
  | temporary hindex hv => exact hv
  | named hx => exact hs.store _ hx

theorem Denotes.mono (h : Denotes I ids K st.nextTemporary s value o)
    (hleads : Leads I ids K items code st st' w w' s t) :
    Denotes I ids (K.after items) st'.nextTemporary t value o := by
  cases h with
  | string value => exact .string value
  | number value => exact .number value
  | temporary hindex hv =>
    apply Denotes.temporary (Nat.lt_of_lt_of_le hindex hleads.le)
    rw [hleads.temporaries _ hindex]
    exact hv
  | named hx => exact .named (K.after_of_known hx items)

theorem Leads.nil (h : Corresponds ids K st w s) : Leads I ids K [] [] st st w w s s := by
  constructor
  · rfl
  · rw [Known.after_nil]
    exact h
  · apply Nat.le_refl
  · intro index _
    rfl
  · intro index _
    rfl
  · intro v _
    rfl
  · intro id _
    rfl

theorem Leads.append (h : Leads I ids K items code st st' w w' s t)
    (h' : Leads I ids (K.after items) items' code' st' st'' w' w'' t t') :
    Leads I ids K (items ++ items') (code ++ code') st st'' w w'' s t' := by
  constructor
  · rw [execAll_append_of_next h.exec]
    exact h'.exec
  · rw [← Known.after_append]
    exact h'.corresponds
  · exact Nat.le_trans h.le h'.le
  · intro index hindex
    rw [h'.temporaries index (Nat.lt_of_lt_of_le hindex h.le), h.temporaries index hindex]
  · intro index hindex
    rw [declares_append, List.mem_append, not_or] at hindex
    rw [h'.undeclared index hindex.2, h.undeclared index hindex.1]
  · intro v hv
    rw [← Known.after_append] at hv
    rw [h'.memory_frame v hv]
    apply h.memory_frame v
    intro x hx
    exact hv x (Known.after_of_known hx items')
  · intro id hid
    rw [← Known.after_append] at hid
    rw [h'.store_frame id hid]
    apply h.store_frame id
    intro x hx
    exact hid x (Known.after_of_known hx items')

theorem Leads.use (h : Leads I ids K items code st st' w w' s t) (x : Identifier) :
    Leads I ids K (.use x :: items) code st st' w w' s t := by
  have hafter := K.after_cons_use x items
  constructor
  · exact h.exec
  · rw [hafter]
    exact h.corresponds
  · exact h.le
  · exact h.temporaries
  · exact h.undeclared
  · rw [hafter]
    exact h.memory_frame
  · rw [hafter]
    exact h.store_frame

theorem Leads.write_temporary (h : Leads I ids K items code st st' w w' s t)
    {c : Script.Statement} {calls : List (Call V)}
    (hdeclares : c.declares = [.temporary st'.nextTemporary])
    (hexec : c.exec I t =
      some (.next, { t.write (.temporary st'.nextTemporary) v with calls := calls })) :
    Leads I ids K items (code ++ [c]) st { st' with nextTemporary := st'.nextTemporary + 1 } w
      { w' with calls := calls } s
      { t.write (.temporary st'.nextTemporary) v with calls := calls } := by
  have hvariable : ∀ u, (t.write (.temporary st'.nextTemporary) v).memory (.variable u) =
      t.memory (.variable u) := by
    intro u
    apply Machine.memory_write_of_ne
    simp
  constructor
  · rw [execAll_append_of_next h.exec, execAll_singleton, hexec]
  · constructor
    · exact h.corresponds.coherent
    · intro x hx
      rw [hvariable]
      exact h.corresponds.store x hx
    · rfl
    · intro u hu
      rw [hvariable]
      exact h.corresponds.declared u hu
  · exact Nat.le_succ_of_le h.le
  · intro index hindex
    have hle := h.le
    rw [← h.temporaries index hindex]
    apply Machine.memory_write_of_ne
    simp only [ne_eq, Place.temporary.injEq]
    omega
  · intro index hindex
    rw [declares_append, declares_singleton, hdeclares, List.mem_append, not_or,
      List.mem_singleton] at hindex
    rw [← h.undeclared index hindex.1]
    exact Machine.memory_write_of_ne hindex.2 _ _
  · intro u hu
    rw [hvariable]
    exact h.memory_frame u hu
  · exact h.store_frame

theorem Leads.write_variable (h : Leads I ids K items code st st' w w' s t)
    (hexec : execAll I code' t = some (.next, t.write (.variable (x.variable ids)) v))
    (hcoherent : Coherent ids (K.after items')) (hx : K.after items' x)
    (hnew : ∀ y, K.after items' y → y.id ≠ x.id → K.after items y)
    (hold : ∀ y, K.after items y → K.after items' y)
    (hdeclared : ∀ u ∈ st''.declared, u = x.variable ids ∨ u ∈ st'.declared)
    (hnext : st''.nextTemporary = st'.nextTemporary) :
    Leads I ids K items' (code ++ code') st st'' w (World.assign x v w').2 s
      (t.write (.variable (x.variable ids)) v) := by
  have hother : ∀ u, u ≠ x.variable ids →
      (t.write (.variable (x.variable ids)) v).memory (.variable u) = t.memory (.variable u) := by
    intro u hu
    apply Machine.memory_write_of_ne
    simpa using hu
  constructor
  · rw [execAll_append_of_next h.exec, hexec]
  · constructor
    · exact hcoherent
    · intro y hy
      -- By coherence, a known variable is overwritten only if it is that of the same binding.
      by_cases hid : y.id = x.id
      · rw [(hcoherent y x hy hx).2 hid, Machine.memory_write_self, hid, World.store_assign_self]
      · rw [World.store_assign_of_ne hid, hother]
        · exact h.corresponds.store y (hnew y hy hid)
        · rw [ne_eq, hcoherent y x hy hx]
          exact hid
    · exact h.corresponds.calls
    · intro u hu
      by_cases heq : u = x.variable ids
      · rw [heq, Machine.memory_write_self, Option.isSome_some]
      · rw [hother u heq]
        cases hdeclared u hu with
        | inl hvariable => exact absurd hvariable heq
        | inr hmem => exact h.corresponds.declared u hmem
  · rw [hnext]
    exact h.le
  · intro index hindex
    rw [← h.temporaries index hindex]
    apply Machine.memory_write_of_ne
    simp
  · intro index hindex
    rw [declares_append, List.mem_append, not_or] at hindex
    rw [← h.undeclared index hindex.1]
    apply Machine.memory_write_of_ne
    simp
  · intro u hu
    rw [hother u (hu x hx).symm]
    apply h.memory_frame u
    intro y hy
    exact hu y (hold y hy)
  · intro id hid
    rw [World.store_assign_of_ne (hid x hx).symm]
    apply h.store_frame id
    intro y hy
    exact hid y (hold y hy)

theorem Leads.assign (h : Leads I ids K items code st st' w w' s t)
    (hvalue : Denotes I ids (K.after items) st'.nextTemporary t value o) (hx : K.after items x) :
    Leads I ids K items (code ++ [.assign (x.variable ids) value]) st st' w
      (World.assign x (o.read w') w').2 s
      (t.write (.variable (x.variable ids)) (o.read w')) := by
  apply h.write_variable
  · rw [execAll_singleton, Statement.exec, hvalue.read_eq h.corresponds, h.corresponds.store x hx]
    rfl
  · exact h.corresponds.coherent
  · exact hx
  · intro y hy _
    exact hy
  · intro y hy
    exact hy
  · intro u hu
    exact .inr hu
  · rfl

theorem execAll_declareOnce (h : Corresponds ids K st w t)
    (hvalue : Denotes I ids K st.nextTemporary t value o)
    (hx : ∀ y, K y → y.variable ids ≠ x.variable ids) :
    execAll I ((declareOnce (x.variable ids) st).1 ++ [.assign (x.variable ids) value]) t =
      some (.next, t.write (.variable (x.variable ids)) (o.read w)) := by
  unfold declareOnce
  split
  next hmem =>
    obtain ⟨old, hold⟩ := Option.isSome_iff_exists.1 (h.declared _ hmem)
    rw [List.nil_append, execAll_singleton, Statement.exec, hvalue.read_eq h, hold]
    rfl
  · have hread : value.read I (t.write (.variable (x.variable ids)) I.undefined) =
        some (o.read w) := by
      rw [← hvalue.read_eq h]
      cases hvalue with
      | string value => rfl
      | number value => rfl
      | temporary hindex hv =>
        apply Machine.memory_write_of_ne
        simp
      | named hy =>
        apply Machine.memory_write_of_ne
        simpa using hx _ hy
    have hdeclare : (Script.Statement.declare (x.variable ids)).exec I t =
        some (.next, t.write (.variable (x.variable ids)) I.undefined) := rfl
    rw [List.singleton_append, execAll, hdeclare, andThen, execAll_singleton, Statement.exec, hread,
      Machine.memory_write_self]
    simp [Machine.write]

theorem Leads.declare (h : Leads I ids K items code st st' w w' s t)
    (hvalue : Denotes I ids (K.after items) st'.nextTemporary t value o)
    (hx : (Item.bind x).Tracked ids (K.after items)) :
    Leads I ids K (items ++ [.bind x])
      (code ++ ((declareOnce (x.variable ids) st').1 ++ [.assign (x.variable ids) value])) st
      (declareOnce (x.variable ids) st').2 w (World.assign x (o.read w') w').2 s
      (t.write (.variable (x.variable ids)) (o.read w')) := by
  obtain ⟨⟨id, hid, hxid⟩, hfresh⟩ := hx
  have hne : ∀ y, K.after items y → y.variable ids ≠ x.variable ids := by
    intro y hy heq
    exact hfresh y hy (y.id_eq_of_variable_eq hid hxid heq)
  have hafter : ∀ y, K.after (items ++ [.bind x]) y ↔
      K.after items y ∨ (y.name = x.name ∧ y.id = x.id) := by
    intro y
    rw [← Known.after_append, Known.after]
    simp
  apply h.write_variable
  · exact execAll_declareOnce h.corresponds hvalue hne
  · rw [← Known.after_append]
    apply h.corresponds.coherent.after
    rw [tracked_singleton]
    exact ⟨⟨id, hid, hxid⟩, hfresh⟩
  · rw [hafter]
    exact .inr ⟨rfl, rfl⟩
  · intro y hy hy'
    rw [hafter] at hy
    cases hy with
    | inl hy => exact hy
    | inr hy => exact absurd hy.2 hy'
  · intro y hy
    rw [hafter]
    exact .inl hy
  · intro u hu
    unfold declareOnce at hu
    split at hu
    · exact .inr hu
    · exact List.mem_cons.1 hu
  · unfold declareOnce
    split <;> rfl

theorem mapM_read_eq {values : List Value} {os : List (Operand V)}
    (h : List.Forall₂ (Denotes I ids K next s) values os) (hs : Corresponds ids K st w s) :
    values.mapM (Value.read I s) = some (os.map (Operand.read w)) := by
  induction h with
  | nil => rfl
  | cons h _ ih =>
    rw [List.mapM_cons, h.read_eq hs, ih]
    rfl

mutual

theorem Expr.lower_leads (e : Expr) {K : Known} {st : Lowering.State} {w : World V} {s : Machine V}
    (hassignable : Assignable e.subexpressions) (htracked : tracked ids K e.items)
    (h : Corresponds ids K st w s) :
    ∃ t, Leads I ids K e.items (e.lower ids st).1.code st (e.lower ids st).2 w (e.evalLate I w).2 s
        t ∧
      Denotes I ids (K.after e.items) (e.lower ids st).2.nextTemporary t (e.lower ids st).1.value
        (e.evalLate I w).1 := by
  match e with
  | .string value => exact ⟨s, .nil h, .string value⟩
  | .number value => exact ⟨s, .nil h, .number value⟩
  | .identifier x =>
    have hx : K x := tracked_singleton.1 htracked
    exact ⟨s, (Leads.nil h).use x, .named (K.after_of_known hx _)⟩
  | .binary op left right =>
    rw [Expr.subexpressions, assignable_cons (by simp), assignable_append] at hassignable
    rw [Expr.items, tracked_append] at htracked
    obtain ⟨t₁, hleft, hleftValue⟩ := left.lower_leads hassignable.1 htracked.1 h
    obtain ⟨t₂, hright, hrightValue⟩ :=
      right.lower_leads hassignable.2 htracked.2 hleft.corresponds
    have hleftRead := (hleftValue.mono hright).read_eq hright.corresponds
    have hrightRead := hrightValue.read_eq hright.corresponds
    refine ⟨_, (hleft.append hright).write_temporary rfl ?_,
      .temporary (Nat.lt_succ_self _) (Machine.memory_write_self _ _ _)⟩
    rw [Statement.exec, hleftRead, hrightRead, ← hright.corresponds.calls]
    rfl
  | .call callee arguments =>
    rw [Expr.subexpressions, assignable_cons (by simp), assignable_append] at hassignable
    rw [Expr.items, tracked_append] at htracked
    obtain ⟨t₁, hcallee, hcalleeValue⟩ := callee.lower_leads hassignable.1 htracked.1 h
    obtain ⟨t₂, harguments, hargumentValues⟩ :=
      Expr.lowerList_leads arguments hassignable.2 htracked.2 hcallee.corresponds
    have hcalleeRead := (hcalleeValue.mono harguments).read_eq harguments.corresponds
    have hargumentsRead := mapM_read_eq hargumentValues harguments.corresponds
    refine ⟨_, (hcallee.append harguments).write_temporary rfl ?_,
      .temporary (Nat.lt_succ_self _) (Machine.memory_write_self _ _ _)⟩
    rw [Statement.exec, hcalleeRead, hargumentsRead, ← harguments.corresponds.calls]
    rfl
  | .assign target value =>
    obtain ⟨x, rfl⟩ := hassignable target value List.mem_cons_self
    rw [Expr.subexpressions, assignable_assign, assignable_append] at hassignable
    have hsplit : tracked ids K ([.use x] ++ value.items) := htracked
    rw [tracked_append, Known.after_use] at hsplit
    have hx : K x := tracked_singleton.1 hsplit.1
    obtain ⟨t, hvalue, hoperand⟩ := value.lower_leads hassignable.2 hsplit.2 h
    have hassign := hvalue.assign hoperand (K.after_of_known hx _)
    exact ⟨_, hassign.use x, .named (K.after_of_known hx _)⟩
  | .declare x value =>
    rw [Expr.subexpressions, assignable_cons (by simp)] at hassignable
    rw [Expr.items, tracked_append] at htracked
    obtain ⟨t, hvalue, hoperand⟩ := value.lower_leads hassignable htracked.1 h
    have hdeclare := hvalue.declare hoperand (tracked_singleton.1 htracked.2)
    rw [← List.append_assoc] at hdeclare
    exact ⟨_, hdeclare, .named (K.after_of_mem (by simp [Expr.items]))⟩

theorem Expr.lowerList_leads (es : List Expr) {K : Known} {st : Lowering.State} {w : World V}
    {s : Machine V} (hassignable : Assignable (Expr.subexpressionsList es))
    (htracked : tracked ids K (Expr.itemsList es)) (h : Corresponds ids K st w s) :
    ∃ t, Leads I ids K (Expr.itemsList es) (Expr.lowerList ids es st).1.code st
        (Expr.lowerList ids es st).2 w (Expr.evalLateList I es w).2 s t ∧
      List.Forall₂ (Denotes I ids (K.after (Expr.itemsList es))
        (Expr.lowerList ids es st).2.nextTemporary t) (Expr.lowerList ids es st).1.value
        (Expr.evalLateList I es w).1 := by
  match es with
  | [] => exact ⟨s, .nil h, .nil⟩
  | e :: es =>
    rw [Expr.subexpressionsList, assignable_append] at hassignable
    rw [Expr.itemsList, tracked_append] at htracked
    obtain ⟨t₁, he, hevalue⟩ := e.lower_leads hassignable.1 htracked.1 h
    obtain ⟨t₂, hes, hvalues⟩ := Expr.lowerList_leads es hassignable.2 htracked.2 he.corresponds
    refine ⟨t₂, he.append hes, ?_⟩
    rw [Expr.itemsList, ← Known.after_append]
    exact .cons (hevalue.mono hes) hvalues

end

end

end LiterateFun
