import LiterateFun.Proofs.Lowering.Expression

/-!
This module contains the order of evaluation of lowered expressions. Late evaluation makes a
difference only where an operand that is named by its variable is overwritten by a later operand of
the same operation.
-/

namespace LiterateFun

open Lowering Script

variable {V : Type}

def Expr.operands : Expr → List Expr
  | .binary _ left right => [left, right]
  | .call callee arguments => callee :: arguments
  | _ => []

def Expr.binding? : Expr → Option (Option Nat)
  | .identifier x => some x.id
  | .assign (.identifier x) _ => some x.id
  | .declare x _ => some x.id
  | _ => none

def Expr.Assigns (e : Expr) (id : Option Nat) : Prop :=
  ∃ x value, .assign (.identifier x) value ∈ e.subexpressions ∧ x.id = id

section

variable {id : Option Nat}

theorem Expr.assigns_binary {op : Operator} {left right : Expr} :
    (Expr.binary op left right).Assigns id ↔ left.Assigns id ∨ right.Assigns id := by
  simp [Expr.Assigns, Expr.subexpressions, or_and_right, exists_or]

theorem Expr.assigns_call {callee : Expr} {arguments : List Expr} :
    (Expr.call callee arguments).Assigns id ↔
      callee.Assigns id ∨ ∃ a ∈ arguments, a.Assigns id := by
  simp only [Expr.Assigns, Expr.subexpressions, List.mem_cons, reduceCtorEq, List.mem_append,
    Expr.mem_subexpressionsList, false_or, or_and_right, exists_or]
  constructor
  · rintro (h | ⟨x, value, ⟨a, ha, hmem⟩, hid⟩)
    · exact .inl h
    · exact .inr ⟨a, ha, x, value, hmem, hid⟩
  · rintro (h | ⟨a, ha, x, value, hmem, hid⟩)
    · exact .inl h
    · exact .inr ⟨x, value, ⟨a, ha, hmem⟩, hid⟩

theorem Expr.assigns_assign {x : Identifier} {value : Expr} :
    (Expr.assign (.identifier x) value).Assigns id ↔ x.id = id ∨ value.Assigns id := by
  simp [Expr.Assigns, Expr.subexpressions, or_and_right, exists_or]

theorem Expr.assigns_declare {x : Identifier} {value : Expr} :
    (Expr.declare x value).Assigns id ↔ value.Assigns id := by
  simp [Expr.Assigns, Expr.subexpressions]

end

def Expr.Precedes (left right : Expr) : Prop :=
  ∀ id, left.binding? = some id → ¬right.Assigns id

def Expr.Ordered (e : Expr) : Prop :=
  ∀ a ∈ e.subexpressions, a.operands.Pairwise Expr.Precedes

section

variable {I : Interpretation V} {ids : List Nat} {K : Known}

theorem Expr.evalLate_cases {e : Expr} (h : Assignable e.subexpressions) (w : World V) :
    (∃ v, (e.evalLate I w).1 = .value v) ∨
      ∃ id, e.binding? = some id ∧ (e.evalLate I w).1 = .binding id := by
  cases e with
  | string value => exact .inl ⟨_, rfl⟩
  | number value => exact .inl ⟨_, rfl⟩
  | identifier x => exact .inr ⟨x.id, rfl, rfl⟩
  | binary op left right => exact .inl ⟨_, rfl⟩
  | call callee arguments => exact .inl ⟨_, rfl⟩
  | assign target value =>
    obtain ⟨x, rfl⟩ := h target value List.mem_cons_self
    exact .inr ⟨x.id, rfl, rfl⟩
  | declare x value => exact .inr ⟨x.id, rfl, rfl⟩

theorem Expr.read_evalLate_congr {e : Expr} (h : Assignable e.subexpressions) (w₀ : World V)
    {w w' : World V} (hstore : ∀ id, e.binding? = some id → w'.store id = w.store id) :
    (e.evalLate I w₀).1.read w' = (e.evalLate I w₀).1.read w := by
  cases e.evalLate_cases h w₀ with
  | inl hvalue =>
    obtain ⟨v, hv⟩ := hvalue
    rw [hv]
    rfl
  | inr hbinding =>
    obtain ⟨id, hid, hread⟩ := hbinding
    rw [hread]
    exact hstore id hid

theorem Expr.known_of_binding? {e : Expr} (htracked : tracked ids K e.items) {id : Option Nat}
    (h : e.binding? = some id) : ∃ x, K.after e.items x ∧ x.id = id := by
  match e with
  | .identifier x =>
    cases h
    exact ⟨x, K.after_of_known (tracked_singleton.1 htracked) _, rfl⟩
  | .assign (.identifier x) value =>
    cases h
    have hsplit : tracked ids K ([.use x] ++ value.items) := htracked
    rw [tracked_append] at hsplit
    exact ⟨x, K.after_of_known (tracked_singleton.1 hsplit.1) _, rfl⟩
  | .declare x value =>
    cases h
    exact ⟨x, K.after_of_mem (by simp [Expr.items]), rfl⟩

mutual

theorem Expr.store_eval (e : Expr) (h : Assignable e.subexpressions) {id : Option Nat}
    (hassigns : ¬e.Assigns id) (hbind : ∀ y, .bind y ∈ e.items → y.id ≠ id) (w : World V) :
    (e.eval I w).2.store id = w.store id := by
  match e with
  | .string value => rfl
  | .number value => rfl
  | .identifier x => rfl
  | .binary op left right =>
    rw [Expr.subexpressions, assignable_cons (by simp), assignable_append] at h
    rw [Expr.assigns_binary, not_or] at hassigns
    simp only [Expr.items, List.mem_append] at hbind
    have hleft := left.store_eval h.1 hassigns.1 (fun y hy => hbind y (.inl hy)) w
    rw [← hleft]
    exact right.store_eval h.2 hassigns.2 (fun y hy => hbind y (.inr hy)) _
  | .call callee arguments =>
    rw [Expr.subexpressions, assignable_cons (by simp), assignable_append] at h
    simp only [Expr.assigns_call, not_or, not_exists, not_and] at hassigns
    simp only [Expr.items, List.mem_append] at hbind
    have hcallee := callee.store_eval h.1 hassigns.1 (fun y hy => hbind y (.inl hy)) w
    rw [← hcallee]
    exact Expr.store_evalList arguments h.2 hassigns.2 (fun y hy => hbind y (.inr hy)) _
  | .assign target value =>
    obtain ⟨x, rfl⟩ := h target value List.mem_cons_self
    rw [Expr.subexpressions, assignable_assign, assignable_append] at h
    rw [Expr.assigns_assign, not_or] at hassigns
    rw [← value.store_eval h.2 hassigns.2 (fun y hy => hbind y (List.mem_cons_of_mem _ hy)) w]
    exact World.store_assign_of_ne (Ne.symm hassigns.1) _ _
  | .declare x value =>
    rw [Expr.subexpressions, assignable_cons (by simp)] at h
    rw [Expr.assigns_declare] at hassigns
    simp only [Expr.items, List.mem_append] at hbind
    rw [← value.store_eval h hassigns (fun y hy => hbind y (.inl hy)) w]
    exact World.store_assign_of_ne (Ne.symm (hbind x (.inr List.mem_cons_self))) _ _

theorem Expr.store_evalList (es : List Expr) (h : Assignable (Expr.subexpressionsList es))
    {id : Option Nat} (hassigns : ∀ e ∈ es, ¬e.Assigns id)
    (hbind : ∀ y, .bind y ∈ Expr.itemsList es → y.id ≠ id) (w : World V) :
    (Expr.evalList I es w).2.store id = w.store id := by
  match es with
  | [] => rfl
  | e :: es =>
    rw [Expr.subexpressionsList, assignable_append] at h
    rw [List.forall_mem_cons] at hassigns
    simp only [Expr.itemsList, List.mem_append] at hbind
    rw [← e.store_eval h.1 hassigns.1 (fun y hy => hbind y (.inl hy)) w]
    exact Expr.store_evalList es h.2 hassigns.2 (fun y hy => hbind y (.inr hy)) _

end

theorem Expr.Ordered.of_subset {e e' : Expr} (h : e.Ordered)
    (hsubset : e'.subexpressions ⊆ e.subexpressions) : e'.Ordered := by
  intro a ha
  exact h a (hsubset ha)

theorem Expr.id_ne_of_binding? {e : Expr} {items : List Item}
    (htracked : tracked ids K (e.items ++ items)) {id : Option Nat} (h : e.binding? = some id)
    {y : Identifier} (hy : .bind y ∈ items) : y.id ≠ id := by
  rw [tracked_append] at htracked
  obtain ⟨x, hx, rfl⟩ := e.known_of_binding? htracked.1 h
  exact (id_ne_of_tracked htracked.2 hx hy).symm

mutual

theorem Expr.evalLate_eq_eval (e : Expr) {K : Known} (h : Assignable e.subexpressions)
    (htracked : tracked ids K e.items) (hordered : e.Ordered) (w : World V) :
    (e.evalLate I w).2 = (e.eval I w).2 ∧
      (e.evalLate I w).1.read (e.eval I w).2 = (e.eval I w).1 := by
  match e with
  | .string value => exact ⟨rfl, rfl⟩
  | .number value => exact ⟨rfl, rfl⟩
  | .identifier x => exact ⟨rfl, rfl⟩
  | .binary op left right =>
    have hprecedes : left.Precedes right := by
      have := hordered _ (Expr.mem_subexpressions_self _)
      simpa [Expr.operands] using this
    rw [Expr.subexpressions, assignable_cons (by simp), assignable_append] at h
    have hleft := left.evalLate_eq_eval h.1 (tracked_append.1 htracked).1
      (hordered.of_subset (by simp [Expr.subexpressions])) w
    have hright := right.evalLate_eq_eval h.2 (tracked_append.1 htracked).2
      (hordered.of_subset (by simp [Expr.subexpressions])) (left.eval I w).2
    -- The left operand is read after the right one was evaluated.
    have hread : (left.evalLate I w).1.read (right.eval I (left.eval I w).2).2 =
        (left.evalLate I w).1.read (left.eval I w).2 := by
      apply left.read_evalLate_congr h.1
      intro id hid
      apply right.store_eval h.2 (hprecedes id hid)
      intro y hy
      exact Expr.id_ne_of_binding? htracked hid hy
    simp only [Expr.evalLate, Expr.eval, bind_apply, pure_apply, get_apply, Operand.read_value,
      hleft.1, hright.1, hread, hleft.2, hright.2, and_self]
  | .call callee arguments =>
    have hpairwise := hordered _ (Expr.mem_subexpressions_self _)
    rw [Expr.operands, List.pairwise_cons] at hpairwise
    rw [Expr.subexpressions, assignable_cons (by simp), assignable_append] at h
    have hcallee := callee.evalLate_eq_eval h.1 (tracked_append.1 htracked).1
      (hordered.of_subset (by simp [Expr.subexpressions])) w
    have hargumentsOrdered : ∀ e ∈ arguments, e.Ordered := by
      intro e he a ha
      apply hordered a
      rw [Expr.subexpressions, List.mem_cons, List.mem_append, Expr.mem_subexpressionsList]
      exact .inr (.inr ⟨e, he, ha⟩)
    have harguments := Expr.evalLateList_eq_evalList arguments h.2 (tracked_append.1 htracked).2
      hargumentsOrdered hpairwise.2 (callee.eval I w).2
    have hread : (callee.evalLate I w).1.read (Expr.evalList I arguments (callee.eval I w).2).2 =
        (callee.evalLate I w).1.read (callee.eval I w).2 := by
      apply callee.read_evalLate_congr h.1
      intro id hid
      apply Expr.store_evalList arguments h.2 (fun e he => hpairwise.1 e he id hid)
      intro y hy
      exact Expr.id_ne_of_binding? htracked hid hy
    simp only [Expr.evalLate, Expr.eval, bind_apply, pure_apply, get_apply, Operand.read_value,
      hcallee.1, harguments.1, hread, hcallee.2, harguments.2, and_self]
  | .assign target value =>
    obtain ⟨x, rfl⟩ := h target value List.mem_cons_self
    rw [Expr.subexpressions, assignable_assign, assignable_append] at h
    have hsplit : tracked ids K ([.use x] ++ value.items) := htracked
    rw [tracked_append] at hsplit
    have hvalue := value.evalLate_eq_eval h.2 hsplit.2
      (hordered.of_subset (by simp [Expr.subexpressions])) w
    simp only [Expr.evalLate, Expr.eval, World.assignOperand, bind_apply, pure_apply, get_apply,
      Operand.read_binding, hvalue.1, hvalue.2, World.store_assign_self, true_and]
    rfl
  | .declare x value =>
    rw [Expr.subexpressions, assignable_cons (by simp)] at h
    have hvalue := value.evalLate_eq_eval h (tracked_append.1 htracked).1
      (hordered.of_subset (by simp [Expr.subexpressions])) w
    simp only [Expr.evalLate, Expr.eval, World.assignOperand, bind_apply, pure_apply, get_apply,
      Operand.read_binding, hvalue.1, hvalue.2, World.store_assign_self, true_and]
    rfl

theorem Expr.evalLateList_eq_evalList (es : List Expr) {K : Known}
    (h : Assignable (Expr.subexpressionsList es)) (htracked : tracked ids K (Expr.itemsList es))
    (hordered : ∀ e ∈ es, e.Ordered) (hprecedes : es.Pairwise Expr.Precedes) (w : World V) :
    (Expr.evalLateList I es w).2 = (Expr.evalList I es w).2 ∧
      (Expr.evalLateList I es w).1.map (Operand.read (Expr.evalList I es w).2) =
        (Expr.evalList I es w).1 := by
  match es with
  | [] => exact ⟨rfl, rfl⟩
  | e :: es =>
    rw [List.pairwise_cons] at hprecedes
    rw [List.forall_mem_cons] at hordered
    rw [Expr.subexpressionsList, assignable_append] at h
    have he := e.evalLate_eq_eval h.1 (tracked_append.1 htracked).1 hordered.1 w
    have hes := Expr.evalLateList_eq_evalList es h.2 (tracked_append.1 htracked).2 hordered.2
      hprecedes.2 (e.eval I w).2
    have hread : (e.evalLate I w).1.read (Expr.evalList I es (e.eval I w).2).2 =
        (e.evalLate I w).1.read (e.eval I w).2 := by
      apply e.read_evalLate_congr h.1
      intro id hid
      apply Expr.store_evalList es h.2 (fun a ha => hprecedes.1 a ha id hid)
      intro y hy
      exact Expr.id_ne_of_binding? htracked hid hy
    simp only [Expr.evalLateList, Expr.evalList, bind_apply, pure_apply, List.map_cons, he.1, hes.1,
      hread, he.2, hes.2, and_self]

end

end

def Expr.lateResult (I : Interpretation V) (e : Expr) (w : World V) : V × World V :=
  ((e.evalLate I w).1.read (e.evalLate I w).2, (e.evalLate I w).2)

/--
The code of an expression leads from `s` to `t` with the value, the calls and the store of a result
that an evaluation of the expression in `w` has.
-/
structure Simulates (I : Interpretation V) (ids : List Nat) (e : Expr) (code : Lowered Value)
    (w : World V) (result : V × World V) (s t : Machine V) : Prop where
  exec : execAll I code.code s = some (.next, t)
  value : code.value.read I t = some result.1
  calls : t.calls = result.2.calls
  store : ∀ x ∈ e.identifiers,
    t.memory (.variable (x.variable ids)) = some (result.2.store x.id)
  /-- All other variables stay as they are. -/
  memory_frame : ∀ v, (∀ x ∈ e.identifiers, x.variable ids ≠ v) →
    t.memory (.variable v) = s.memory (.variable v)
  store_frame : ∀ id, (∀ x ∈ e.identifiers, x.id ≠ id) → result.2.store id = w.store id

theorem Expr.IsPlaced.simulates {globals : List (String × Nat)} {ids : List Nat} {e : Expr}
    (h : e.IsPlaced globals ids) (I : Interpretation V) {st : Lowering.State} {w : World V}
    {s : Machine V} (hs : Corresponds ids (freeIn e.items) st w s) :
    ∃ t, Simulates I ids e (e.lower ids st).1 w (e.lateResult I w) s t := by
  obtain ⟨t, hleads, hvalue⟩ := e.lower_leads (I := I) h.assignable h.tracked hs
  refine ⟨t, hleads.exec, hvalue.read_eq hleads.corresponds, hleads.corresponds.calls, ?_, ?_, ?_⟩
  · intro x hx
    exact hleads.corresponds.store x (h.known_of_mem hx)
  · intro v hv
    apply hleads.memory_frame
    intro x hx
    obtain ⟨y, hy, hname, hid⟩ := Expr.exists_mem_of_known hx
    rw [x.variable_congr hname hid]
    exact hv y hy
  · intro id hne
    apply hleads.store_frame
    intro x hx
    obtain ⟨y, hy, -, hid⟩ := Expr.exists_mem_of_known hx
    rw [hid]
    exact hne y hy

/--
The code of an expression of an accepted block evaluates the expression from left to right, but
reads bindings late. This is evaluation if no operand that is an identifier or an assignment is
overwritten by a later operand.
-/
theorem exec_lower {s : Resolution.Session} (hs : s.Reachable) {b : Block}
    (hb : (s.resolve b).2.2 = none) {ids : List Nat}
    (hids : ids = (Generator.ofBlock (s.resolve b).1).declaredIds) {e : Expr}
    (he : e ∈ blockSubexpressions (s.resolve b).1) (I : Interpretation V) {st : Lowering.State}
    {w : World V} {m : Machine V}
    (hstore : ∀ x, freeIn e.items x →
      m.memory (.variable (x.variable ids)) = some (w.store x.id))
    (hcalls : m.calls = w.calls)
    (hdeclared : ∀ v ∈ st.declared, (m.memory (.variable v)).isSome) :
    ∃ t, Simulates I ids e (e.lower ids st).1 w (e.lateResult I w) m t ∧
      (e.Ordered → Simulates I ids e (e.lower ids st).1 w (e.eval I w) m t) := by
  subst hids
  have hplaced := Resolution.Session.isPlaced_resolve hs hb he
  obtain ⟨t, ht⟩ := hplaced.simulates I ⟨hplaced.coherent, hstore, hcalls, hdeclared⟩
  refine ⟨t, ht, ?_⟩
  intro hordered
  obtain ⟨hworld, hvalue⟩ :=
    e.evalLate_eq_eval (I := I) hplaced.assignable hplaced.tracked hordered w
  have hresult : e.lateResult I w = e.eval I w := by
    rw [Expr.lateResult, hworld, hvalue]
    rfl
  rw [← hresult]
  exact ht

def concatenation : Interpretation String where
  string value := value
  number _ := ""
  undefined := ""
  binary _ left right := left ++ right
  call _ _ := ""
  truthy value := value ≠ ""

/-- The program `x := "a"; x + (x = "b");`. -/
def overwritingProgram : Block :=
  [.expression (.declare { name := "x" } (.string "a")),
   .expression (.binary .add (.identifier { name := "x" })
    (.assign (.identifier { name := "x" }) (.string "b")))]

def overwritingSum : Expr :=
  .binary .add (.identifier { name := "x", id := some 1 })
    (.assign (.identifier { name := "x", id := some 1 }) (.string "b"))

theorem exec_lower_overwritingSum :
    (overwritingSum.eval concatenation { store := fun _ => "a", calls := [] }).1 = "ab" ∧
      ∃ t, execAll concatenation (overwritingSum.lower [1] {}).1.code
          { memory := fun _ => some "a", calls := [] } = some (.next, t) ∧
        (overwritingSum.lower [1] {}).1.value.read concatenation t = some "bb" := by
  have hsuccess : ((Resolution.Session.withBuiltins []).resolve overwritingProgram).2.2 = none := by
    decide +kernel
  have hresolved : ((Resolution.Session.withBuiltins []).resolve overwritingProgram).1 =
      [.expression (.declare { name := "x", id := some 1 } (.string "a")),
       .expression overwritingSum] := by
    rfl
  have hids : [1] = (Generator.ofBlock
      ((Resolution.Session.withBuiltins []).resolve overwritingProgram).1).declaredIds := by
    rw [hresolved]
    rfl
  have hmem : overwritingSum ∈ blockSubexpressions
      ((Resolution.Session.withBuiltins []).resolve overwritingProgram).1 := by
    rw [hresolved]
    simp [blockSubexpressions, Statement.subexpressions, Expr.subexpressions, overwritingSum]
  have hstore : ∀ x, freeIn overwritingSum.items x →
      (⟨fun _ => some "a", []⟩ : Machine String).memory (.variable (x.variable [1])) =
        some ((⟨fun _ => "a", []⟩ : World String).store x.id) := by
    intro x _
    rfl
  have hdeclared : ∀ v ∈ ({} : Lowering.State).declared,
      ((⟨fun _ => some "a", []⟩ : Machine String).memory (.variable v)).isSome := by
    intro v hv
    cases hv
  obtain ⟨t, ht, -⟩ :=
    exec_lower (.withBuiltins []) hsuccess hids hmem concatenation hstore rfl hdeclared
  exact ⟨rfl, t, ht.exec, ht.value⟩

end LiterateFun
