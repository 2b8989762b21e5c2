import LiterateFun.Program.Occurrences
import LiterateFun.Proofs.Basics
import Mathlib.Logic.Function.Basic

/-!
This module contains the meaning of programs. Expressions are evaluated from left to right, and
statements run one after another. What the operators and calls do and which values count as true is
left open. Every binding has a place of its own in the store, so that scopes have no part in it.
-/

namespace LiterateFun

structure Call (V : Type) where
  callee : V
  arguments : List V

structure Interpretation (V : Type) where
  string : String → V
  number : Number → V
  /-- The value of a variable that nothing was assigned to. -/
  undefined : V
  binary : Operator → V → V → V
  /-- The result of a call, which can depend on all calls before. -/
  call : List (Call V) → Call V → V
  truthy : V → Bool

structure World (V : Type) where
  store : Option Nat → V
  calls : List (Call V)

inductive Outcome (V : Type)
  | next
  | returned (value : V)
deriving DecidableEq

variable {V : Type}

def World.assign (x : Identifier) (value : V) : StateM (World V) V := fun w =>
  (value, { w with store := Function.update w.store x.id value })

@[simp]
theorem World.store_assign_self (x : Identifier) (value : V) (w : World V) :
    (World.assign x value w).2.store x.id = value := by
  simp [World.assign]

theorem World.store_assign_of_ne {x : Identifier} {id : Option Nat} (h : id ≠ x.id) (value : V)
    (w : World V) : (World.assign x value w).2.store id = w.store id := by
  simp [World.assign, h]

def World.call (I : Interpretation V) (c : Call V) : StateM (World V) V := fun w =>
  (I.call w.calls c, { w with calls := w.calls ++ [c] })

mutual

/-- Evaluate an expression. An identifier has the value of the moment when it is evaluated. -/
def Expr.eval (I : Interpretation V) : Expr → StateM (World V) V
  | .string value => return I.string value
  | .number value => return I.number value
  | .identifier x => return (← get).store x.id
  | .binary op left right => do
    let left ← left.eval I
    let right ← right.eval I
    return I.binary op left right
  | .call callee arguments => do
    let callee ← callee.eval I
    let arguments ← Expr.evalList I arguments
    World.call I ⟨callee, arguments⟩
  | .assign (.identifier x) value => do
    let value ← value.eval I
    World.assign x value
  -- Resolution accepts no other target.
  | .assign _ value => value.eval I
  | .declare x value => do
    let value ← value.eval I
    World.assign x value

def Expr.evalList (I : Interpretation V) : List Expr → StateM (World V) (List V)
  | [] => return []
  | e :: es => do
    let e ← e.eval I
    let es ← Expr.evalList I es
    return e :: es

end

mutual

/-- Run a statement. A declaration has no effect where it stands. -/
def Statement.run (I : Interpretation V) : Statement → StateM (World V) (Outcome V)
  | .expression value => do
    let _ ← value.eval I
    return .next
  | .return value => do
    let value ← value.eval I
    return .returned value
  | .conditional condition consequent none => do
    let condition ← condition.eval I
    if I.truthy condition then runStatements I consequent else return .next
  | .conditional condition consequent (some alternative) => do
    let condition ← condition.eval I
    if I.truthy condition then runStatements I consequent else runStatements I alternative
  | .declaration _ => return .next

def runStatements (I : Interpretation V) : List Statement → StateM (World V) (Outcome V)
  | [] => return .next
  | s :: b => do
    match ← s.run I with
    | .next => runStatements I b
    | .returned value => return .returned value

end

theorem run_conditional_none (I : Interpretation V) (condition : Expr) (consequent : Block)
    (w : World V) :
    Statement.run I (.conditional condition consequent none) w =
      if I.truthy (condition.eval I w).1 then
        runStatements I consequent (condition.eval I w).2
      else
        (.next, (condition.eval I w).2) := by
  simp only [Statement.run, bind_apply]
  split <;> rfl

theorem run_conditional_some (I : Interpretation V) (condition : Expr)
    (consequent alternative : Block) (w : World V) :
    Statement.run I (.conditional condition consequent (some alternative)) w =
      if I.truthy (condition.eval I w).1 then
        runStatements I consequent (condition.eval I w).2
      else
        runStatements I alternative (condition.eval I w).2 := by
  simp only [Statement.run, bind_apply]
  split <;> rfl

theorem runStatements_cons_next {I : Interpretation V} {st : Statement} {b : List Statement}
    {w : World V} (h : (st.run I w).1 = .next) :
    runStatements I (st :: b) w = runStatements I b (st.run I w).2 := by
  simp only [runStatements, bind_apply, h]

theorem runStatements_cons_returned {I : Interpretation V} {st : Statement} {b : List Statement}
    {w : World V} {value : V} (h : (st.run I w).1 = .returned value) :
    runStatements I (st :: b) w = (.returned value, (st.run I w).2) := by
  simp only [runStatements, bind_apply, h, pure_apply]

section

variable {id : Option Nat}

mutual

theorem Expr.store_eval_eq (I : Interpretation V) (e : Expr) (h : ∀ x ∈ e.identifiers, x.id ≠ id)
    (w : World V) : (e.eval I w).2.store id = w.store id := by
  match e with
  | .string value => rfl
  | .number value => rfl
  | .identifier x => rfl
  | .binary op left right =>
    rw [Expr.identifiers, List.forall_mem_append] at h
    exact (right.store_eval_eq I h.2 _).trans (left.store_eval_eq I h.1 w)
  | .call callee arguments =>
    rw [Expr.identifiers, List.forall_mem_append] at h
    exact (Expr.store_evalList_eq I arguments h.2 _).trans (callee.store_eval_eq I h.1 w)
  | .assign target value =>
    rw [Expr.identifiers, List.forall_mem_append] at h
    have hvalue := value.store_eval_eq I h.2 w
    cases target with
    | identifier x =>
      rw [← hvalue]
      exact World.store_assign_of_ne (h.1 x List.mem_cons_self).symm _ _
    | _ => exact hvalue
  | .declare x value =>
    rw [Expr.identifiers, List.forall_mem_cons] at h
    rw [← value.store_eval_eq I h.2 w]
    exact World.store_assign_of_ne h.1.symm _ _

theorem Expr.store_evalList_eq (I : Interpretation V) (es : List Expr)
    (h : ∀ x ∈ Expr.identifiersList es, x.id ≠ id) (w : World V) :
    (Expr.evalList I es w).2.store id = w.store id := by
  match es with
  | [] => rfl
  | e :: es =>
    rw [Expr.identifiersList, List.forall_mem_append] at h
    exact (Expr.store_evalList_eq I es h.2 _).trans (e.store_eval_eq I h.1 w)

end

mutual

theorem Statement.store_run_eq (I : Interpretation V) (st : Statement)
    (h : ∀ x ∈ st.identifiers, x.id ≠ id) (w : World V) :
    (st.run I w).2.store id = w.store id := by
  match st with
  | .expression value => exact value.store_eval_eq I h w
  | .return value => exact value.store_eval_eq I h w
  | .declaration d => rfl
  | .conditional condition consequent none =>
    rw [Statement.identifiers, List.forall_mem_append] at h
    rw [run_conditional_none, ← condition.store_eval_eq I h.1 w]
    split
    · exact store_runStatements_eq I consequent h.2 _
    · rfl
  | .conditional condition consequent (some alternative) =>
    rw [Statement.identifiers, List.forall_mem_append, List.forall_mem_append] at h
    rw [run_conditional_some, ← condition.store_eval_eq I h.1.1 w]
    split
    · exact store_runStatements_eq I consequent h.1.2 _
    · exact store_runStatements_eq I alternative h.2 _

theorem store_runStatements_eq (I : Interpretation V) (b : List Statement)
    (h : ∀ x ∈ blockIdentifiers b, x.id ≠ id) (w : World V) :
    (runStatements I b w).2.store id = w.store id := by
  match b with
  | [] => rfl
  | st :: b =>
    rw [blockIdentifiers, List.forall_mem_append] at h
    rw [← st.store_run_eq I h.1 w]
    cases ho : (st.run I w).1 with
    | next =>
      rw [runStatements_cons_next ho]
      exact store_runStatements_eq I b h.2 _
    | returned value => rw [runStatements_cons_returned ho]

end

end

end LiterateFun
