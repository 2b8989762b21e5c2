import LiterateFun.Proofs.Evaluation
import LiterateFun.Script.Basic
import Mathlib.Data.List.Nodup

/-!
This module contains the meaning of scripts without functions and classes.

Braces make a scope. All that is declared directly in a scope is hidden from its start on: before a
declaration is reached, its place has no value, whatever the places around the scope are. At the end
of the scope, the places that it has hidden come back.
-/

namespace LiterateFun.Script

inductive Place
  | variable (v : Variable)
  | temporary (index : Nat)
deriving DecidableEq

structure Machine (V : Type) where
  /-- The values of the places that can be read. -/
  memory : Place → Option V
  calls : List (Call V)

variable {V : Type}

namespace Machine

def write (s : Machine V) (p : Place) (value : V) : Machine V :=
  { s with memory := Function.update s.memory p (some value) }

@[simp]
theorem memory_write_self (s : Machine V) (p : Place) (value : V) :
    (s.write p value).memory p = some value := by
  simp [write]

theorem memory_write_of_ne {p q : Place} (h : q ≠ p) (s : Machine V) (value : V) :
    (s.write p value).memory q = s.memory q := by
  simp [write, h]

def enter (s : Machine V) (places : List Place) : Machine V :=
  { s with memory := fun p => if p ∈ places then none else s.memory p }

/-- Bring back the places that were hidden when `before` entered a scope. -/
def leave (s : Machine V) (places : List Place) (before : Machine V) : Machine V :=
  { s with memory := fun p => if p ∈ places then before.memory p else s.memory p }

theorem memory_enter_of_notMem {p : Place} {places : List Place} (h : p ∉ places)
    (s : Machine V) : (s.enter places).memory p = s.memory p :=
  if_neg h

theorem memory_leave_of_notMem {p : Place} {places : List Place} (h : p ∉ places)
    (s before : Machine V) : (s.leave places before).memory p = s.memory p :=
  if_neg h

end Machine

abbrev Result (V : Type) := Option (Outcome V × Machine V)

def andThen (r : Result V) (f : Machine V → Result V) : Result V :=
  match r with
  | some (.next, s) => f s
  | r => r

/-- Run statements in a scope that declares places. No scope declares a place twice. -/
def inScope (places : List Place) (f : Machine V → Result V) (s : Machine V) : Result V :=
  if places.Nodup then
    (f (s.enter places)).map fun (o, t) => (o, t.leave places s)
  else
    none

def Value.read (I : Interpretation V) (s : Machine V) : Value → Option V
  | .string value => some (I.string value)
  | .number value => some (I.number value)
  | .variable v => s.memory (.variable v)
  | .temporary index => s.memory (.temporary index)

def Statement.declares : Statement → List Place
  | .binary index _ _ _ => [.temporary index]
  | .call index _ _ => [.temporary index]
  | .declare v => [.variable v]
  | .function name _ _ => [.variable ⟨name, none⟩]
  | .class name _ _ => [.variable ⟨name, none⟩]
  | _ => []

def declares (code : List Statement) : List Place :=
  code.flatMap Statement.declares

theorem declares_append (code code' : List Statement) :
    declares (code ++ code') = declares code ++ declares code' := by
  rw [declares, declares, declares, List.flatMap_append]

theorem declares_singleton (c : Statement) : declares [c] = c.declares :=
  List.flatMap_singleton _ _

def choose (I : Interpretation V) (condition : Value) (yes no : Machine V → Result V)
    (s : Machine V) : Result V :=
  (condition.read I s).bind fun value => if I.truthy value then yes s else no s

mutual

/-- Execute a statement. Only a variable that has a value can be assigned to. -/
def Statement.exec (I : Interpretation V) :
    Statement → Machine V → Option (Outcome V × Machine V)
  | .binary index op left right, s => do
    let left ← left.read I s
    let right ← right.read I s
    return (.next, s.write (.temporary index) (I.binary op left right))
  | .call index callee arguments, s => do
    let callee ← callee.read I s
    let arguments ← arguments.mapM (Value.read I s)
    let call := ⟨callee, arguments⟩
    let s := s.write (.temporary index) (I.call s.calls call)
    return (.next, { s with calls := s.calls ++ [call] })
  | .declare v, s => return (.next, s.write (.variable v) I.undefined)
  | .assign v value, s => do
    let value ← value.read I s
    let _ ← s.memory (.variable v)
    return (.next, s.write (.variable v) value)
  | .unassignable _, _ => none
  | .value value, s => do
    let _ ← value.read I s
    return (.next, s)
  | .return value, s => do
    let value ← value.read I s
    return (.returned value, s)
  | .conditional setup condition consequent none, s =>
    inScope (declares setup)
      (fun s => andThen (execAll I setup s)
        (choose I condition (inScope (declares consequent) (execAll I consequent))
          fun s => some (.next, s)))
      s
  | .conditional setup condition consequent (some alternative), s =>
    inScope (declares setup)
      (fun s => andThen (execAll I setup s)
        (choose I condition (inScope (declares consequent) (execAll I consequent))
          (inScope (declares alternative) (execAll I alternative))))
      s
  | .function .., _ => none
  | .class .., _ => none

def execAll (I : Interpretation V) : List Statement → Machine V → Result V
  | [], s => some (.next, s)
  | c :: code, s => andThen (c.exec I s) (execAll I code)

end

def execScope (I : Interpretation V) (code : List Statement) : Machine V → Result V :=
  inScope (declares code) (execAll I code)

theorem execAll_append (I : Interpretation V) (code₁ code₂ : List Statement) (s : Machine V) :
    execAll I (code₁ ++ code₂) s = andThen (execAll I code₁ s) (execAll I code₂) := by
  induction code₁ generalizing s with
  | nil => rfl
  | cons c code₁ ih =>
    rw [List.cons_append, execAll, execAll]
    match c.exec I s with
    | none => rfl
    | some (.returned value, t) => rfl
    | some (.next, t) => exact ih t

theorem execAll_append_of_next {I : Interpretation V} {code₁ code₂ : List Statement}
    {s t : Machine V} (h : execAll I code₁ s = some (.next, t)) :
    execAll I (code₁ ++ code₂) s = execAll I code₂ t := by
  rw [execAll_append, h, andThen]

theorem execAll_singleton (I : Interpretation V) (c : Statement) (s : Machine V) :
    execAll I [c] s = c.exec I s := by
  rw [execAll]
  match c.exec I s with
  | none => rfl
  | some (.returned value, t) => rfl
  | some (.next, t) => rfl

def KeepsPlaces (f : Machine V → Result V) : Prop :=
  ∀ s o t, f s = some (o, t) → ∀ p, (s.memory p).isSome → (t.memory p).isSome

theorem isSome_write {s : Machine V} {p : Place} (h : (s.memory p).isSome) (q : Place) (value : V) :
    ((s.write q value).memory p).isSome := by
  by_cases hp : p = q
  · rw [hp, Machine.memory_write_self, Option.isSome_some]
  · rw [Machine.memory_write_of_ne hp, h]

theorem keepsPlaces_next : KeepsPlaces fun s : Machine V => some (.next, s) := by
  intro s o t h p hp
  cases h
  exact hp

theorem KeepsPlaces.andThen {f g : Machine V → Result V} (hf : KeepsPlaces f)
    (hg : KeepsPlaces g) : KeepsPlaces fun s => andThen (f s) g := by
  intro s o t h p hp
  simp only [Script.andThen] at h
  split at h
  next u hu => exact hg u o t h p (hf s _ u hu p hp)
  next => exact hf s o t h p hp

theorem KeepsPlaces.inScope {f : Machine V → Result V} (hf : KeepsPlaces f)
    (places : List Place) : KeepsPlaces (inScope places f) := by
  intro s o t h p hp
  unfold Script.inScope at h
  split at h
  · obtain ⟨⟨o', u⟩, hu, heq⟩ := Option.map_eq_some_iff.1 h
    cases heq
    simp only [Machine.leave]
    split
    · exact hp
    next hmem =>
      apply hf _ _ _ hu
      rw [Machine.memory_enter_of_notMem hmem]
      exact hp
  · cases h

theorem KeepsPlaces.choose {yes no : Machine V → Result V} (hyes : KeepsPlaces yes)
    (hno : KeepsPlaces no) (I : Interpretation V) (condition : Value) :
    KeepsPlaces (choose I condition yes no) := by
  intro s o t h p hp
  obtain ⟨value, -, h⟩ := Option.bind_eq_some_iff.1 h
  split at h
  · exact hyes s o t h p hp
  · exact hno s o t h p hp

mutual

theorem keepsPlaces_exec (I : Interpretation V) (c : Statement) : KeepsPlaces (c.exec I) := by
  match c with
  | .binary index op left right =>
    intro s o t h p hp
    obtain ⟨l, -, h⟩ := Option.bind_eq_some_iff.1 h
    obtain ⟨r, -, h⟩ := Option.bind_eq_some_iff.1 h
    cases h
    exact isSome_write hp _ _
  | .call index callee arguments =>
    intro s o t h p hp
    obtain ⟨f, -, h⟩ := Option.bind_eq_some_iff.1 h
    obtain ⟨values, -, h⟩ := Option.bind_eq_some_iff.1 h
    cases h
    exact isSome_write hp _ _
  | .declare v =>
    intro s o t h p hp
    cases h
    exact isSome_write hp _ _
  | .assign v value =>
    intro s o t h p hp
    obtain ⟨w, -, h⟩ := Option.bind_eq_some_iff.1 h
    obtain ⟨old, -, h⟩ := Option.bind_eq_some_iff.1 h
    cases h
    exact isSome_write hp _ _
  | .unassignable value =>
    intro s o t h
    cases h
  | .value value =>
    intro s o t h p hp
    obtain ⟨w, -, h⟩ := Option.bind_eq_some_iff.1 h
    cases h
    exact hp
  | .return value =>
    intro s o t h p hp
    obtain ⟨w, -, h⟩ := Option.bind_eq_some_iff.1 h
    cases h
    exact hp
  | .conditional setup condition consequent none =>
    have hconsequent := (keepsPlaces_execAll I consequent).inScope (declares consequent)
    have hbranch := hconsequent.choose keepsPlaces_next I condition
    exact ((keepsPlaces_execAll I setup).andThen hbranch).inScope (declares setup)
  | .conditional setup condition consequent (some alternative) =>
    have hconsequent := (keepsPlaces_execAll I consequent).inScope (declares consequent)
    have halternative := (keepsPlaces_execAll I alternative).inScope (declares alternative)
    have hbranch := hconsequent.choose halternative I condition
    exact ((keepsPlaces_execAll I setup).andThen hbranch).inScope (declares setup)
  | .function name parameters body =>
    intro s o t h
    cases h
  | .class name body methods =>
    intro s o t h
    cases h

theorem keepsPlaces_execAll (I : Interpretation V) (code : List Statement) :
    KeepsPlaces (execAll I code) := by
  match code with
  | [] => exact keepsPlaces_next
  | c :: code => exact (keepsPlaces_exec I c).andThen (keepsPlaces_execAll I code)

end

end LiterateFun.Script
