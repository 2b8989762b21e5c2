import LiterateFun.Lowering.Basic
import LiterateFun.Program.Occurrences

/-!
This module contains the names in scripts. Every name in the script of a program is one of the
program.
-/

namespace LiterateFun

open Lowering

namespace Script

section

variable (P : String → Prop)

def Value.NamesAll : Value → Prop
  | .variable v => P v.name
  | _ => True

mutual

def Statement.NamesAll : Statement → Prop
  | .binary _ _ left right => left.NamesAll P ∧ right.NamesAll P
  | .call _ callee arguments => callee.NamesAll P ∧ ∀ value ∈ arguments, value.NamesAll P
  | .declare v => P v.name
  | .assign v value => P v.name ∧ value.NamesAll P
  | .unassignable value => value.NamesAll P
  | .value value => value.NamesAll P
  | .return value => value.NamesAll P
  | .conditional setup condition consequent none =>
    namesAll setup ∧ condition.NamesAll P ∧ namesAll consequent
  | .conditional setup condition consequent (some alternative) =>
    namesAll setup ∧ condition.NamesAll P ∧ namesAll consequent ∧ namesAll alternative
  | .function name parameters body => P name ∧ (∀ x ∈ parameters, P x) ∧ namesAll body
  | .class name none methods => P name ∧ methodNamesAll methods
  | .class name (some body) methods => P name ∧ namesAll body ∧ methodNamesAll methods

def Method.NamesAll : Method → Prop
  | .mk name parameters body => P name ∧ (∀ x ∈ parameters, P x) ∧ namesAll body

def namesAll : List Statement → Prop
  | [] => True
  | s :: script => s.NamesAll ∧ namesAll script

def methodNamesAll : List Method → Prop
  | [] => True
  | m :: methods => m.NamesAll ∧ methodNamesAll methods

end

variable {P}

theorem namesAll_iff {script : List Statement} :
    namesAll P script ↔ ∀ s ∈ script, s.NamesAll P := by
  induction script with
  | nil => simp [namesAll]
  | cons s script ih => rw [namesAll, ih, List.forall_mem_cons]

theorem methodNamesAll_iff {methods : List Method} :
    methodNamesAll P methods ↔ ∀ m ∈ methods, m.NamesAll P := by
  induction methods with
  | nil => simp [methodNamesAll]
  | cons m methods ih => rw [methodNamesAll, ih, List.forall_mem_cons]

theorem namesAll_append {script script' : List Statement} :
    namesAll P (script ++ script') ↔ namesAll P script ∧ namesAll P script' := by
  simp only [namesAll_iff, List.forall_mem_append]

theorem namesAll_singleton {s : Statement} : namesAll P [s] ↔ s.NamesAll P := by
  rw [namesAll_iff, List.forall_mem_singleton]

end

end Script

open Script

variable {P : String → Prop}

namespace Lowering.Piece

variable (P) in
def NamesAll : Piece → Prop
  | .class name body => P name ∧ namesAll P body
  | .function name parameters body => P name ∧ (∀ x ∈ parameters, P x) ∧ namesAll P body
  | .method owner name parameters body =>
    P owner ∧ P name ∧ (∀ x ∈ parameters, P x) ∧ namesAll P body

theorem namesAll_gather {pieces : List Piece} (h : ∀ p ∈ pieces, p.NamesAll P) {name : String}
    (hname : P name) : (gather pieces name).NamesAll P := by
  have hmethods : methodNamesAll P (pieces.filterMap (method? name)) := by
    rw [methodNamesAll_iff]
    intro m hm
    obtain ⟨p, hp, hmethod⟩ := List.mem_filterMap.1 hm
    cases p with
    | method owner name' parameters body =>
      obtain ⟨-, ⟨⟩⟩ := Option.ite_none_right_eq_some.1 hmethod
      exact (h _ hp).2
    | _ => cases hmethod
  rw [gather]
  cases hconstructor : (pieces.filterMap (constructor? name)).getLast? with
  | none => exact ⟨hname, hmethods⟩
  | some body =>
    refine ⟨hname, ?_, hmethods⟩
    obtain ⟨p, hp, hbody⟩ := List.mem_filterMap.1 (List.mem_of_getLast? hconstructor)
    cases p with
    | «class» name' body' =>
      obtain ⟨-, ⟨⟩⟩ := Option.ite_none_right_eq_some.1 hbody
      exact (h _ hp).2
    | _ => cases hbody

theorem namesAll_arrange {pieces : List Piece} (h : ∀ p ∈ pieces, p.NamesAll P) :
    namesAll P (arrange pieces) := by
  rw [namesAll_iff]
  intro s hs
  rw [arrange, List.mem_append, List.mem_map, List.mem_filterMap] at hs
  rcases hs with ⟨name, hname, rfl⟩ | ⟨p, hp, hfunction⟩
  · obtain ⟨p, hp, hclass⟩ := List.mem_filterMap.1 (List.mem_eraseDups.1 hname)
    apply namesAll_gather h
    cases p with
    | function => cases hclass
    | _ =>
      cases hclass
      exact (h _ hp).1
  · cases p with
    | function name parameters body =>
      cases hfunction
      exact h _ hp
    | _ => cases hfunction

end Lowering.Piece

section

variable (ids : List Nat)

theorem namesAll_declareOnce {v : Variable} (h : P v.name) (st : Lowering.State) :
    namesAll P (declareOnce v st).1 := by
  unfold declareOnce
  split
  · trivial
  · exact namesAll_singleton.2 h

mutual

theorem Expr.namesAll_lower (e : Expr) (h : ∀ x ∈ e.identifiers, P x.name) (st : Lowering.State) :
    namesAll P (e.lower ids st).1.code ∧ (e.lower ids st).1.value.NamesAll P := by
  match e with
  | .string value => exact ⟨trivial, trivial⟩
  | .number value => exact ⟨trivial, trivial⟩
  | .identifier x => exact ⟨trivial, h x List.mem_cons_self⟩
  | .binary op left right =>
    rw [Expr.identifiers, List.forall_mem_append] at h
    have hleft := left.namesAll_lower h.1 st
    have hright := right.namesAll_lower h.2 (left.lower ids st).2
    refine ⟨namesAll_append.2 ⟨namesAll_append.2 ⟨hleft.1, hright.1⟩, ?_⟩, trivial⟩
    exact namesAll_singleton.2 ⟨hleft.2, hright.2⟩
  | .call callee arguments =>
    rw [Expr.identifiers, List.forall_mem_append] at h
    have hcallee := callee.namesAll_lower h.1 st
    have harguments := Expr.namesAll_lowerList arguments h.2 (callee.lower ids st).2
    refine ⟨namesAll_append.2 ⟨namesAll_append.2 ⟨hcallee.1, harguments.1⟩, ?_⟩, trivial⟩
    exact namesAll_singleton.2 ⟨hcallee.2, harguments.2⟩
  | .assign target value =>
    rw [Expr.identifiers, List.forall_mem_append] at h
    have hvalue := value.namesAll_lower h.2 st
    cases target with
    | identifier x =>
      have hx : P x.name := h.1 x List.mem_cons_self
      exact ⟨namesAll_append.2 ⟨hvalue.1, namesAll_singleton.2 ⟨hx, hvalue.2⟩⟩, hx⟩
    | _ => exact ⟨namesAll_append.2 ⟨hvalue.1, namesAll_singleton.2 hvalue.2⟩, hvalue.2⟩
  | .declare x value =>
    rw [Expr.identifiers, List.forall_mem_cons] at h
    have hvalue := value.namesAll_lower h.2 st
    have hdeclare : namesAll P (declareOnce (x.variable ids) (value.lower ids st).2).1 :=
      namesAll_declareOnce h.1 _
    exact ⟨namesAll_append.2 ⟨namesAll_append.2 ⟨hvalue.1, hdeclare⟩,
      namesAll_singleton.2 ⟨h.1, hvalue.2⟩⟩, h.1⟩

theorem Expr.namesAll_lowerList (es : List Expr) (h : ∀ x ∈ Expr.identifiersList es, P x.name)
    (st : Lowering.State) :
    namesAll P (Expr.lowerList ids es st).1.code ∧
      ∀ v ∈ (Expr.lowerList ids es st).1.value, v.NamesAll P := by
  match es with
  | [] => exact ⟨trivial, List.forall_mem_nil _⟩
  | e :: es =>
    rw [Expr.identifiersList, List.forall_mem_append] at h
    have he := e.namesAll_lower h.1 st
    have hes := Expr.namesAll_lowerList es h.2 (e.lower ids st).2
    exact ⟨namesAll_append.2 ⟨he.1, hes.1⟩, List.forall_mem_cons.2 ⟨he.2, hes.2⟩⟩

end

theorem namesAll_assemble {pieces : List Piece} {statements : Step (List Script.Statement)}
    (hpieces : ∀ p ∈ pieces, p.NamesAll P) (hstatements : namesAll P (statements {}).1) :
    namesAll P (assemble pieces statements) :=
  namesAll_append.2 ⟨Piece.namesAll_arrange hpieces, hstatements⟩

mutual

theorem Statement.namesAll_lower (s : Statement) (h : ∀ x ∈ s.identifiers, P x.name)
    (st : Lowering.State) : namesAll P (s.lower ids st).1 := by
  match s with
  | .expression value =>
    have hvalue := value.namesAll_lower ids h st
    exact namesAll_append.2 ⟨hvalue.1, namesAll_singleton.2 hvalue.2⟩
  | .return value =>
    have hvalue := value.namesAll_lower ids h st
    exact namesAll_append.2 ⟨hvalue.1, namesAll_singleton.2 hvalue.2⟩
  | .conditional condition consequent none =>
    rw [Statement.identifiers, List.forall_mem_append] at h
    have hcondition := condition.namesAll_lower ids h.1 { st with declared := [] }
    have hconsequent := namesAll_assemble (namesAll_lowerDeclarations consequent h.2)
      (namesAll_lowerStatements consequent h.2 {})
    exact namesAll_singleton.2 ⟨hcondition.1, hcondition.2, hconsequent⟩
  | .conditional condition consequent (some alternative) =>
    rw [Statement.identifiers, List.forall_mem_append, List.forall_mem_append] at h
    have hcondition := condition.namesAll_lower ids h.1.1 { st with declared := [] }
    have hconsequent := namesAll_assemble (namesAll_lowerDeclarations consequent h.1.2)
      (namesAll_lowerStatements consequent h.1.2 {})
    have halternative := namesAll_assemble (namesAll_lowerDeclarations alternative h.2)
      (namesAll_lowerStatements alternative h.2 {})
    exact namesAll_singleton.2 ⟨hcondition.1, hcondition.2, hconsequent, halternative⟩
  | .declaration d => trivial

theorem Declaration.namesAll_lower (d : Declaration) (h : ∀ x ∈ d.identifiers, P x.name) :
    (d.lower ids).NamesAll P := by
  match d with
  | .class name body =>
    rw [Declaration.identifiers, List.forall_mem_cons] at h
    exact ⟨h.1, namesAll_assemble (namesAll_lowerDeclarations body h.2)
      (namesAll_lowerStatements body h.2 {})⟩
  | .function name parameters body =>
    simp only [Declaration.identifiers, List.cons_append, List.forall_mem_cons,
      List.forall_mem_append] at h
    exact ⟨h.1, List.forall_mem_map.2 h.2.1, namesAll_assemble
      (namesAll_lowerDeclarations body h.2.2) (namesAll_lowerStatements body h.2.2 {})⟩
  | .method owner name parameters body =>
    simp only [Declaration.identifiers, List.cons_append, List.forall_mem_cons,
      List.forall_mem_append] at h
    exact ⟨h.1, h.2.1, List.forall_mem_map.2 h.2.2.1, namesAll_assemble
      (namesAll_lowerDeclarations body h.2.2.2) (namesAll_lowerStatements body h.2.2.2 {})⟩

theorem namesAll_lowerStatements (b : List Statement) (h : ∀ x ∈ blockIdentifiers b, P x.name)
    (st : Lowering.State) : namesAll P (lowerStatements ids b st).1 := by
  match b with
  | [] => trivial
  | s :: b =>
    rw [blockIdentifiers, List.forall_mem_append] at h
    exact namesAll_append.2 ⟨s.namesAll_lower h.1 st,
      namesAll_lowerStatements b h.2 (s.lower ids st).2⟩

theorem namesAll_lowerDeclarations (b : List Statement)
    (h : ∀ x ∈ blockIdentifiers b, P x.name) : ∀ p ∈ lowerDeclarations ids b, p.NamesAll P := by
  match b with
  | [] => exact List.forall_mem_nil _
  | .declaration d :: b =>
    rw [blockIdentifiers, List.forall_mem_append] at h
    exact List.forall_mem_cons.2 ⟨d.namesAll_lower h.1, namesAll_lowerDeclarations b h.2⟩
  | .expression _ :: b =>
    rw [blockIdentifiers, List.forall_mem_append] at h
    exact namesAll_lowerDeclarations b h.2
  | .return _ :: b =>
    rw [blockIdentifiers, List.forall_mem_append] at h
    exact namesAll_lowerDeclarations b h.2
  | .conditional .. :: b =>
    rw [blockIdentifiers, List.forall_mem_append] at h
    exact namesAll_lowerDeclarations b h.2

end

theorem Block.namesAll_lower {b : Block} (h : ∀ x ∈ blockIdentifiers b, P x.name) :
    namesAll P (b.lower ids) :=
  namesAll_assemble (namesAll_lowerDeclarations ids b h) (namesAll_lowerStatements ids b h {})

end

end LiterateFun
