import LiterateFun.Proofs.Emission.Compiled
import LiterateFun.Proofs.Emission.Variables
import LiterateFun.Proofs.Naming.References

/-!
This module contains the occurrences of variables in programs and in their scripts. Every mention of
an identifier is found in the script as its variable, and the text of a variable of a `:=` tells its
binding.
-/

namespace LiterateFun

open Lowering Script Resolution Resolution.Session

namespace Script

def usedVariables (script : List Statement) : List Variable :=
  (sequences script).flatMap fun code => code.flatMap Statement.usedVariables

def declaredVariables (script : List Statement) : List Variable :=
  (sequences script).flatMap fun code => code.flatMap Statement.declaredVariables

end Script

/-- The identifier of an expression that reads a variable, or of the target of a `:=`. -/
def Expr.occurrence? : Expr → Option Identifier
  | .identifier x => some x
  | .declare x _ => some x
  | _ => none

/-- The occurrences of variables in some expressions. The target of an `=` is one that is read. -/
def occurrencesIn (es : List Expr) : List Identifier :=
  es.filterMap Expr.occurrence?

def introducedIn (es : List Expr) : List Identifier :=
  es.filterMap Expr.introduced?

/--
The identifiers that the code of an expression mentions for the expression itself. An assignment has
its variable as its value, and a `:=` also has it as its target.
-/
def Expr.mentions : Expr → List Identifier
  | .identifier x => [x]
  | .assign (.identifier x) _ => [x]
  | .declare x _ => [x, x]
  | _ => []

theorem accounts_usedVariables (ids : List Nat) :
    Accounts (fun as bs : List Script.Variable => as.Perm bs) ids
      (fun e => e.mentions.map fun x => x.variable ids) Statement.usedVariables where
  isPartwise := isPartwise_perm _
  string _ := .nil
  number _ := .nil
  identifier _ := .refl _
  binary _ _ _ _ _ _ := .refl _
  call _ _ _ _ _ := .refl _
  assign _ _ _ := (List.perm_append_singleton _ _).symm.append_right _
  declare x v value st := by
    have hdeclaration :
        (declareOnce (x.variable ids) st).1.flatMap Statement.usedVariables = [] := by
      unfold declareOnce
      split <;> rfl
    rw [hdeclaration, List.nil_append, Expr.mentions, List.map_cons, ← List.singleton_append,
      ← List.append_assoc]
    exact (List.perm_append_singleton _ _).symm.append_right _

theorem transfers_usedVariables (ids : List Nat) :
    Transfers (fun as bs : List Script.Variable => as.Perm bs) ids
      (fun e => e.subexpressions.flatMap fun e => e.mentions.map fun x => x.variable ids)
      Statement.usedVariables (fun _ => []) :=
  (accounts_usedVariables ids).transfers (fun _ _ _ => rfl) (fun _ _ _ => rfl) (fun _ => rfl)
    fun _ _ _ _ => rfl

theorem accounts_declaredVariables (ids : List Nat) :
    Accounts (fun as bs : List Script.Variable => as ⊆ bs) ids
      (fun e => e.introduced?.toList.map fun x => x.variable ids)
      Statement.declaredVariables where
  isPartwise := isPartwise_subset _
  string _ := List.nil_subset _
  number _ := List.nil_subset _
  identifier _ := List.nil_subset _
  binary _ _ _ _ _ _ := List.nil_subset _
  call _ _ _ _ _ := List.nil_subset _
  assign _ _ _ := List.nil_subset _
  declare x v value st := by
    unfold declareOnce
    split <;> simp [Statement.declaredVariables, Expr.introduced?]

theorem transfers_declaredVariables (ids : List Nat) :
    Transfers (fun as bs : List Script.Variable => as ⊆ bs) ids
      (fun e => e.subexpressions.flatMap fun e => e.introduced?.toList.map fun x => x.variable ids)
      Statement.declaredVariables (fun _ => []) :=
  (accounts_declaredVariables ids).transfers (fun _ _ _ => rfl) (fun _ _ _ => rfl) (fun _ => rfl)
    fun _ _ _ _ => rfl

def Expr.results : Expr → List Identifier
  | .identifier x => [x]
  | .assign (.identifier x) _ => [x]
  | .declare x _ => [x]
  | _ => []

def Expr.lineIdentifiers : Expr → List Identifier
  | .binary _ left right => left.results ++ right.results
  | .call callee arguments => callee.results ++ arguments.flatMap Expr.results
  | .assign (.identifier x) value => x :: value.results
  | .declare x value => x :: value.results
  | _ => []

/-- The identifiers in each line of a block, for its expressions and for its statements. -/
def Block.lineIdentifiers (b : Block) : List (List Identifier) :=
  ((blockSubexpressions b).map Expr.lineIdentifiers ++ (blockRoots b).map Expr.results).filter
    fun xs => !xs.isEmpty

theorem Expr.variables_value_lower (ids : List Nat) {e : Expr} (h : Assignable e.subexpressions)
    (st : Lowering.State) :
    (e.lower ids st).1.value.variables.map Variable.text =
      e.results.map (Identifier.spelling ids) := by
  cases e with
  | assign target value =>
    obtain ⟨x, rfl⟩ := h target value List.mem_cons_self
    rfl
  | _ => rfl

theorem Expr.variables_value_lowerList (ids : List Nat) {es : List Expr}
    (h : Assignable (Expr.subexpressionsList es)) (st : Lowering.State) :
    ((Expr.lowerList ids es st).1.value.flatMap Value.variables).map Variable.text =
      (es.flatMap Expr.results).map (Identifier.spelling ids) := by
  induction es generalizing st with
  | nil => rfl
  | cons e es ih =>
    rw [Expr.subexpressionsList, assignable_append] at h
    have he := Expr.variables_value_lower ids h.1 st
    have hes := ih h.2 (e.lower ids st).2
    rw [List.flatMap_cons, List.map_append, ← he, ← hes, ← List.map_append, ← List.flatMap_cons]
    rfl

def lineTexts (ids : List Nat) (es : List Expr) : List (List String) :=
  es.flatMap fun e => record (e.lineIdentifiers.map (Identifier.spelling ids))

theorem lineTexts_append (ids : List Nat) (es es' : List Expr) :
    lineTexts ids (es ++ es') = lineTexts ids es ++ lineTexts ids es' :=
  List.flatMap_append ..

section

variable {ids : List Nat} {code : List Script.Statement} {es : List Expr}

theorem lineRecords_snoc {e : Expr} {last : Script.Statement}
    (hcode : (code.flatMap Statement.lineRecord).Perm (lineTexts ids es))
    (hlast : last.lineRecord = record (e.lineIdentifiers.map (Identifier.spelling ids))) :
    ((code ++ [last]).flatMap Statement.lineRecord).Perm (lineTexts ids (e :: es)) := by
  rw [List.flatMap_append, List.flatMap_singleton, hlast, lineTexts, List.flatMap_cons]
  exact List.perm_append_comm.trans (hcode.append_left _)

theorem lineRecords_append {code' : List Script.Statement} {es' : List Expr}
    (hcode : (code.flatMap Statement.lineRecord).Perm (lineTexts ids es))
    (hcode' : (code'.flatMap Statement.lineRecord).Perm (lineTexts ids es')) :
    ((code ++ code').flatMap Statement.lineRecord).Perm (lineTexts ids (es ++ es')) := by
  rw [List.flatMap_append, lineTexts_append]
  exact hcode.append hcode'

end

mutual

theorem Expr.lineRecords_lower (ids : List Nat) (e : Expr) (h : Assignable e.subexpressions)
    (st : Lowering.State) :
    ((e.lower ids st).1.code.flatMap Statement.lineRecord).Perm
      (lineTexts ids e.subexpressions) := by
  match e with
  | .string value => exact .nil
  | .number value => exact .nil
  | .identifier x => exact .nil
  | .binary op left right =>
    rw [Expr.subexpressions, assignable_cons (by simp), assignable_append] at h
    have hleft := left.lineRecords_lower ids h.1 st
    have hright := right.lineRecords_lower ids h.2 (left.lower ids st).2
    refine lineRecords_snoc (lineRecords_append hleft hright) (congrArg record ?_)
    rw [Statement.usedVariables, Expr.lineIdentifiers, List.map_append, List.map_append,
      Expr.variables_value_lower ids h.1, Expr.variables_value_lower ids h.2]
  | .call callee arguments =>
    rw [Expr.subexpressions, assignable_cons (by simp), assignable_append] at h
    have hcallee := callee.lineRecords_lower ids h.1 st
    have harguments := Expr.lineRecords_lowerList ids arguments h.2 (callee.lower ids st).2
    refine lineRecords_snoc (lineRecords_append hcallee harguments) (congrArg record ?_)
    rw [Statement.usedVariables, Expr.lineIdentifiers, List.map_append, List.map_append,
      Expr.variables_value_lower ids h.1, Expr.variables_value_lowerList ids h.2]
  | .assign target value =>
    obtain ⟨x, rfl⟩ := h target value List.mem_cons_self
    rw [Expr.subexpressions, assignable_assign, assignable_append] at h
    have hvalue := value.lineRecords_lower ids h.2 st
    refine lineRecords_snoc hvalue (congrArg record ?_)
    rw [Statement.usedVariables, Expr.lineIdentifiers, List.map_cons, List.map_cons,
      Expr.variables_value_lower ids h.2]
    rfl
  | .declare x value =>
    rw [Expr.subexpressions, assignable_cons (by simp)] at h
    have hvalue := value.lineRecords_lower ids h st
    have hdeclaration : ((declareOnce (x.variable ids) (value.lower ids st).2).1.flatMap
        Statement.lineRecord).Perm (lineTexts ids []) := by
      unfold declareOnce
      split <;> exact .nil
    have hboth := lineRecords_append hvalue hdeclaration
    rw [List.append_nil] at hboth
    refine lineRecords_snoc hboth (congrArg record ?_)
    rw [Statement.usedVariables, Expr.lineIdentifiers, List.map_cons, List.map_cons,
      Expr.variables_value_lower ids h]
    rfl

theorem Expr.lineRecords_lowerList (ids : List Nat) (es : List Expr)
    (h : Assignable (Expr.subexpressionsList es)) (st : Lowering.State) :
    ((Expr.lowerList ids es st).1.code.flatMap Statement.lineRecord).Perm
      (lineTexts ids (Expr.subexpressionsList es)) := by
  match es with
  | [] => exact .nil
  | e :: es =>
    rw [Expr.subexpressionsList, assignable_append] at h
    exact lineRecords_append (e.lineRecords_lower ids h.1 st)
      (Expr.lineRecords_lowerList ids es h.2 (e.lower ids st).2)

end

theorem transfers_lineRecord (ids : List Nat) :
    Transfers (fun as bs : List (List String) => as.Perm bs) ids
      (fun e => lineTexts ids e.subexpressions ++
        record (e.results.map (Identifier.spelling ids)))
      Statement.lineRecord (fun _ => []) where
  isPartwise := isPartwise_perm _
  class_eq _ _ _ := rfl
  function_eq _ _ _ := rfl
  return_eq _ := rfl
  conditional_eq _ _ _ _ := rfl
  lower e he st := by
    refine (e.lineRecords_lower ids he st).append (.of_eq (congrArg record ?_))
    exact Expr.variables_value_lower ids he st
  expression _ _ := rfl

section

variable {ids : List Nat} {b : Block} (hassignable : Assignable (blockSubexpressions b))
  (hclasses : ∀ p ∈ ([], b) :: blocksIn b, (p.2.flatMap Statement.classNames).Nodup)

theorem map_lineIdentifiers (ids : List Nat) (b : Block) :
    b.lineIdentifiers.map (List.map (Identifier.spelling ids)) =
      lineTexts ids (blockSubexpressions b) ++
        (blockRoots b).flatMap fun e => record (e.results.map (Identifier.spelling ids)) := by
  have hempty : ((fun xs : List String => !xs.isEmpty) ∘ List.map (Identifier.spelling ids)) =
      fun xs => !xs.isEmpty := by
    funext xs
    simp
  rw [lineTexts, flatMap_record, flatMap_record, ← List.filter_append, Block.lineIdentifiers,
    ← hempty, ← List.filter_map, List.map_append, List.map_map, List.map_map]
  rfl

include hassignable hclasses

theorem lineRecords_lower_perm :
    (contents Statement.lineRecord (fun _ => []) (b.lower ids)).Perm
      (b.lineIdentifiers.map (List.map (Identifier.spelling ids))) := by
  have hperm := Block.transfers_lower (transfers_lineRecord ids) hassignable hclasses
  rw [expected_of_nil] at hperm
  refine hperm.trans ((List.flatMap_append_perm _ _ _).symm.trans (.of_eq ?_))
  rw [map_lineIdentifiers, lineTexts, ← flatMap_blockRoots]
  rfl

theorem declaredVariables_lower_subset :
    contents (fun s => s.declaredVariables.map Variable.text) (fun _ => []) (b.lower ids) ⊆
      (introducedIn (blockSubexpressions b)).map (Identifier.spelling ids) := by
  have hsubset := Block.transfers_lower (transfers_declaredVariables ids) hassignable hclasses
  rw [expected_of_nil, flatMap_blockRoots, ← List.map_flatMap, ← List.filterMap_eq_flatMap_toList]
    at hsubset
  have hmap := List.map_subset Variable.text hsubset
  rwa [← contents_map, List.map_map] at hmap

end

mutual

theorem Expr.roles_subset (e : Expr) {e' : Expr} (h : e' ∈ e.subexpressions) :
    e'.roles ⊆ e.roles := by
  match e with
  | .string value =>
    rw [List.mem_singleton.1 h]
    exact List.Subset.refl _
  | .number value =>
    rw [List.mem_singleton.1 h]
    exact List.Subset.refl _
  | .identifier x =>
    rw [List.mem_singleton.1 h]
    exact List.Subset.refl _
  | .binary op left right =>
    rw [Expr.subexpressions, List.mem_cons, List.mem_append] at h
    rcases h with rfl | h | h
    · exact List.Subset.refl _
    · exact List.subset_append_of_subset_left _ (left.roles_subset h)
    · exact List.subset_append_of_subset_right _ (right.roles_subset h)
  | .call callee arguments =>
    rw [Expr.subexpressions, List.mem_cons, List.mem_append] at h
    rcases h with rfl | h | h
    · exact List.Subset.refl _
    · exact List.subset_append_of_subset_left _ (callee.roles_subset h)
    · exact List.subset_append_of_subset_right _ (Expr.rolesList_subset arguments h)
  | .assign target value =>
    rw [Expr.subexpressions, List.mem_cons, List.mem_append] at h
    rcases h with rfl | h | h
    · exact List.Subset.refl _
    · exact List.subset_append_of_subset_left _ (target.roles_subset h)
    · exact List.subset_append_of_subset_right _ (value.roles_subset h)
  | .declare x value =>
    rw [Expr.subexpressions, List.mem_cons] at h
    rcases h with rfl | h
    · exact List.Subset.refl _
    · exact List.subset_cons_of_subset _ (value.roles_subset h)

theorem Expr.rolesList_subset (es : List Expr) {e' : Expr}
    (h : e' ∈ Expr.subexpressionsList es) : e'.roles ⊆ Expr.rolesList es := by
  match es with
  | [] => cases h
  | e :: es =>
    rw [Expr.subexpressionsList, List.mem_append] at h
    rcases h with h | h
    · exact List.subset_append_of_subset_left _ (e.roles_subset h)
    · exact List.subset_append_of_subset_right _ (Expr.rolesList_subset es h)

end

mutual

theorem Statement.roles_subset (st : Statement) {e : Expr} (h : e ∈ st.subexpressions) :
    e.roles ⊆ st.roles := by
  match st with
  | .expression value => exact value.roles_subset h
  | .return value => exact value.roles_subset h
  | .declaration d => exact d.roles_subset h
  | .conditional condition consequent none =>
    rw [Statement.subexpressions, List.mem_append] at h
    rcases h with h | h
    · exact List.subset_append_of_subset_left _ (condition.roles_subset h)
    · exact List.subset_append_of_subset_right _ (blockRoles_subset consequent h)
  | .conditional condition consequent (some alternative) =>
    rw [Statement.subexpressions, List.mem_append, List.mem_append] at h
    rw [Statement.roles]
    rcases h with (h | h) | h
    · exact List.subset_append_of_subset_left _
        (List.subset_append_of_subset_left _ (condition.roles_subset h))
    · exact List.subset_append_of_subset_left _
        (List.subset_append_of_subset_right _ (blockRoles_subset consequent h))
    · exact List.subset_append_of_subset_right _ (blockRoles_subset alternative h)

theorem Declaration.roles_subset (d : Declaration) {e : Expr} (h : e ∈ d.subexpressions) :
    e.roles ⊆ d.roles := by
  match d with
  | .class name body => exact List.subset_cons_of_subset _ (blockRoles_subset body h)
  | .function name parameters body =>
    exact List.subset_append_of_subset_right (_ :: parameterRoles parameters)
      (blockRoles_subset body h)
  | .method owner name parameters body =>
    exact List.subset_append_of_subset_right (_ :: _ :: parameterRoles parameters)
      (blockRoles_subset body h)

theorem blockRoles_subset (b : List Statement) {e : Expr} (h : e ∈ blockSubexpressions b) :
    e.roles ⊆ blockRoles b := by
  match b with
  | [] => cases h
  | st :: b =>
    rw [blockSubexpressions, List.mem_append] at h
    rcases h with h | h
    · exact List.subset_append_of_subset_left _ (st.roles_subset h)
    · exact List.subset_append_of_subset_right _ (blockRoles_subset b h)

end

theorem mem_introducedIn {b : Block} {x : Identifier} :
    x ∈ introducedIn (blockSubexpressions b) ↔ (.variable, x) ∈ blockRoles b := by
  rw [introducedIn, filterMap_introduced?_block]
  simp [variablesIn]

theorem roles_of_mem_occurrencesIn {b : Block} {x : Identifier}
    (h : x ∈ occurrencesIn (blockSubexpressions b)) :
    (.reference, x) ∈ blockRoles b ∨ (.variable, x) ∈ blockRoles b := by
  obtain ⟨e, he, hx⟩ := List.mem_filterMap.1 h
  have hroles := blockRoles_subset b he
  cases e with
  | identifier y =>
    cases hx
    exact .inl (hroles (List.mem_singleton_self _))
  | declare y value =>
    cases hx
    exact .inr (hroles List.mem_cons_self)
  | _ => cases hx

namespace Identifier

variable {ids : List Nat} {x y : Identifier} {id : Nat}

def IsNumbered (ids : List Nat) (x : Identifier) : Prop :=
  ∃ id, x.id = some id ∧ x.spelling ids = spell x.name ++ "_" ++ Text.decimal id

theorem spelling_of_mem (hid : x.id = some id) (h : id ∈ ids) :
    x.spelling ids = spell (x.name ++ "_" ++ Text.decimal id) := by
  have hvariable : (x.variable ids).id = some id := by
    simp [Identifier.variable, hid, h]
  exact Script.Variable.text_eq_spell hvariable

theorem spelling_of_notMem (h : ∀ id ∈ ids, x.id ≠ some id) : x.spelling ids = spell x.name := by
  have hvariable : (x.variable ids).id = none := by
    rw [Identifier.variable, Option.filter_eq_none_iff]
    intro id hid
    rw [decide_eq_true_eq]
    exact fun hmem => h id hmem hid
  exact Script.Variable.text_of_none hvariable

theorem isNumbered_iff : x.IsNumbered ids ↔ ∃ id ∈ ids, x.id = some id := by
  constructor
  · rintro ⟨id, hid, hspelling⟩
    refine ⟨id, ?_, hid⟩
    by_contra hmem
    have hplain : x.spelling ids = spell x.name := by
      refine spelling_of_notMem fun id' hid' heq => hmem ?_
      rwa [Option.some.inj (hid.symm.trans heq)]
    rw [hplain, String.append_assoc] at hspelling
    have hempty := congrArg String.length hspelling
    simp only [String.length_append] at hempty
    have hlength : "_".length = 1 := rfl
    omega
  · rintro ⟨id, hmem, hid⟩
    refine ⟨id, hid, ?_⟩
    rw [spelling_of_mem hid hmem]
    simp only [spell, String.append_assoc]

theorem spelling_of_not_isNumbered (h : ¬x.IsNumbered ids) : x.spelling ids = spell x.name :=
  spelling_of_notMem fun id hmem hid => h (isNumbered_iff.2 ⟨id, hmem, hid⟩)

theorem IsNumbered.id_eq (hx : x.IsNumbered ids) (hy : y.IsNumbered ids)
    (h : x.spelling ids = y.spelling ids) : x.id = y.id := by
  obtain ⟨m, hm, hxid⟩ := isNumbered_iff.1 hx
  obtain ⟨n, hn, hyid⟩ := isNumbered_iff.1 hy
  rw [spelling_of_mem hxid hm, spelling_of_mem hyid hn] at h
  rw [hxid, hyid, (Text.append_decimal_injective (spell_injective h)).2]

theorem spelling_congr (hid : x.id = y.id) (hname : x.name = y.name) :
    x.spelling ids = y.spelling ids := by
  rw [spelling, spelling, Identifier.variable, Identifier.variable, hid, hname]

end Identifier

section

variable {globals : List (String × Nat)} {b : Block} {x y : Identifier}

theorem Resolved.name_eq (h : Resolved globals b) (hx : x ∈ occurrencesIn (blockSubexpressions b))
    (hy : y ∈ introducedIn (blockSubexpressions b)) (hid : x.id = y.id) : x.name = y.name := by
  rw [mem_introducedIn] at hy
  rcases roles_of_mem_occurrencesIn hx with hx | hx
  · exact h.wellBound.name_eq_of_id_eq hx hy rfl hid
  · have heq := h.identified.eq_of_id_eq hx hy (by simp) (by simp) hid
    exact congrArg (fun p => p.2.name) heq

theorem Resolved.exists_introduced_iff (h : Resolved globals b) {part : Block}
    (hpart : blockSubexpressions part ⊆ blockSubexpressions b) :
    (∃ y ∈ introducedIn (blockSubexpressions part), y.id = x.id) ↔
      ∃ id ∈ variableIds (blockRoles part), x.id = some id := by
  have hids (y : Identifier) (hy : y ∈ introducedIn (blockSubexpressions part)) :
      ∃ id, y.id = some id := by
    obtain ⟨e, he, hsome⟩ := List.mem_filterMap.1 hy
    have hmem := List.mem_filterMap.2 ⟨e, hpart he, hsome⟩
    exact h.identified.exists_id (mem_introducedIn.1 hmem) (by simp)
  simp only [mem_variableIds, ← mem_introducedIn]
  constructor
  · rintro ⟨y, hy, hid⟩
    obtain ⟨id, hyid⟩ := hids y hy
    exact ⟨id, ⟨y, hy, hyid⟩, hid.symm.trans hyid⟩
  · rintro ⟨id, ⟨y, hy, hyid⟩, hid⟩
    exact ⟨y, hy, hyid.trans hid.symm⟩

end

theorem target_perm {used results mentioned : List Identifier} (x : Identifier)
    (h : (used ++ results).Perm mentioned) :
    (x :: (results ++ used) ++ [x]).Perm (x :: x :: mentioned) :=
  (List.perm_append_singleton _ _).trans (((List.perm_append_comm.trans h).cons x).cons x)

mutual

theorem Expr.lineIdentifiers_perm (e : Expr) (h : Assignable e.subexpressions) :
    (e.subexpressions.flatMap Expr.lineIdentifiers ++ e.results).Perm
      (e.subexpressions.flatMap Expr.mentions) := by
  match e with
  | .string value => exact .nil
  | .number value => exact .nil
  | .identifier x => exact .refl _
  | .binary op left right =>
    rw [Expr.subexpressions, assignable_cons (by simp), assignable_append] at h
    have hresults : (Expr.binary op left right).results = [] := rfl
    rw [Expr.subexpressions, List.flatMap_cons, List.flatMap_cons, List.flatMap_append,
      List.flatMap_append, hresults, List.append_nil]
    exact List.perm_append_comm.trans ((perm_append_append_comm _ _ _ _).trans
      ((left.lineIdentifiers_perm h.1).append (right.lineIdentifiers_perm h.2)))
  | .call callee arguments =>
    rw [Expr.subexpressions, assignable_cons (by simp), assignable_append] at h
    have hresults : (Expr.call callee arguments).results = [] := rfl
    rw [Expr.subexpressions, List.flatMap_cons, List.flatMap_cons, List.flatMap_append,
      List.flatMap_append, hresults, List.append_nil]
    exact List.perm_append_comm.trans ((perm_append_append_comm _ _ _ _).trans
      ((callee.lineIdentifiers_perm h.1).append (Expr.lineIdentifiersList_perm arguments h.2)))
  | .assign target value =>
    obtain ⟨x, rfl⟩ := h target value List.mem_cons_self
    rw [Expr.subexpressions, assignable_assign, assignable_append] at h
    exact target_perm x (value.lineIdentifiers_perm h.2)
  | .declare x value =>
    rw [Expr.subexpressions, assignable_cons (by simp)] at h
    exact target_perm x (value.lineIdentifiers_perm h)

theorem Expr.lineIdentifiersList_perm (es : List Expr)
    (h : Assignable (Expr.subexpressionsList es)) :
    ((Expr.subexpressionsList es).flatMap Expr.lineIdentifiers ++ es.flatMap Expr.results).Perm
      ((Expr.subexpressionsList es).flatMap Expr.mentions) := by
  match es with
  | [] => exact .nil
  | e :: es =>
    rw [Expr.subexpressionsList, assignable_append] at h
    rw [Expr.subexpressionsList, List.flatMap_append, List.flatMap_append, List.flatMap_cons]
    exact (perm_append_append_comm _ _ _ _).trans
      ((e.lineIdentifiers_perm h.1).append (Expr.lineIdentifiersList_perm es h.2))

end

/-- The lines of a program spell its variables by their bindings, where `ids` are those of its
`:=`. -/
structure SpellsBindings (ids : List Nat) (b : Block) (lines : List String) : Prop where
  /-- Line by line, the variables in use are the occurrences that the program has for its lines. -/
  places : ∃ occurrences : List (List Identifier), occurrences.Perm b.lineIdentifiers ∧
    (lines.map lineVariables).filter (fun names => !names.isEmpty) =
      occurrences.map (List.map (Identifier.spelling ids))
  /-- These are the occurrences that the expressions of the program mention. -/
  mentions : b.lineIdentifiers.flatten.Perm ((blockSubexpressions b).flatMap Expr.mentions)
  /-- The lines declare variables of `:=` only. -/
  declared : lines.flatMap lineDeclared ⊆
    (introducedIn (blockSubexpressions b)).map (Identifier.spelling ids)
  /-- The occurrences of bindings of a `:=` have their id in their text. -/
  numbered : ∀ x ∈ occurrencesIn (blockSubexpressions b),
    x.IsNumbered ids ↔ ∃ y ∈ introducedIn (blockSubexpressions b), y.id = x.id
  /-- The other occurrences have their name as their text. -/
  plain : ∀ x ∈ occurrencesIn (blockSubexpressions b),
    ¬x.IsNumbered ids → x.spelling ids = spell x.name
  /-- Occurrences of bindings of a `:=` have the same text if they have the same binding. -/
  same : ∀ x ∈ occurrencesIn (blockSubexpressions b), ∀ y ∈ occurrencesIn (blockSubexpressions b),
    x.IsNumbered ids → y.IsNumbered ids → (x.spelling ids = y.spelling ids ↔ x.id = y.id)

theorem flatten_lineIdentifiers {b : Block} (h : Assignable (blockSubexpressions b)) :
    b.lineIdentifiers.flatten.Perm ((blockSubexpressions b).flatMap Expr.mentions) := by
  rw [Block.lineIdentifiers, List.flatten_filter_not_isEmpty, List.flatten_append,
    ← List.flatMap_def, ← List.flatMap_def, ← flatMap_blockRoots, ← flatMap_blockRoots]
  rw [blockSubexpressions_eq] at h
  refine (List.flatMap_append_perm _ _ _).trans (List.Perm.flatMap_left _ fun e he => ?_)
  apply e.lineIdentifiers_perm
  exact fun target value hmem => h target value (List.mem_flatMap.2 ⟨e, he, hmem⟩)

theorem spellsBindings_lower {globals : List (String × Nat)} {b : Block} {ids : List Nat}
    (h : Resolved globals b) (hids : ∀ id, id ∈ ids ↔ id ∈ variableIds (blockRoles b))
    (hplain : ∀ x ∈ blockIdentifiers b, IsPlain x.name) :
    SpellsBindings ids b (linesOf (b.lower ids)) := by
  have hnumbered : ∀ x : Identifier,
      x.IsNumbered ids ↔ ∃ y ∈ introducedIn (blockSubexpressions b), y.id = x.id := by
    intro x
    rw [Identifier.isNumbered_iff, h.exists_introduced_iff (List.Subset.refl _)]
    simp only [hids]
  have hclasses := fun p => h.nodup_classNames (p := p)
  have hnames := Block.namesAll_lower ids hplain
  constructor
  · apply exists_perm_of_perm_map
    exact (lineVariables_linesOf hnames).trans (lineRecords_lower_perm h.assignable hclasses)
  · exact flatten_lineIdentifiers h.assignable
  · exact List.Subset.trans (lineDeclared_linesOf hnames).subset
      (declaredVariables_lower_subset h.assignable hclasses)
  · exact fun x _ => hnumbered x
  · exact fun x _ => Identifier.spelling_of_not_isNumbered
  · intro x hx y hy hxids hyids
    refine ⟨hxids.id_eq hyids, fun hid => ?_⟩
    obtain ⟨z, hz, hzid⟩ := (hnumbered x).1 hxids
    have hxname := h.name_eq hx hz hzid.symm
    have hyname := h.name_eq hy hz (hid.symm.trans hzid.symm)
    exact Identifier.spelling_congr hid (hxname.trans hyname.symm)

/--
In the code of what is compiled, an occurrence of a variable has the id of its binding in its text
if the binding is one of a `:=`, and two of these have the same text if they have the same binding.
-/
theorem Compiles.spellsBindings {source code : String} {b : Block} (h : Compiles source b code) :
    ∃ lines, Text.lines code = Prelude.lines ++ lines ∧
      SpellsBindings (Generator.ofBlock b).declaredIds b lines := by
  obtain ⟨⟨globals, hresolved⟩, -⟩ := h.resolved
  refine ⟨_, h.shows.lines, spellsBindings_lower hresolved (fun id => ?_) h.isPlain_name⟩
  exact Generator.mem_declaredIds_iff (hresolved.nodup_hoisted List.mem_cons_self)
    hresolved.assignable id

def resemblingSource : String :=
  "x_5 := \"a\"; \\fun\x7bf\x7d\x7by\x7d\x7b x_5 := y; if y \x7b x_5 = y; \x7d \x7d x_5;"

open Identifier in
def resemblingProgram : Block :=
  [.expression (.declare (placed "x_5" 0) (.string "a")),
    .declaration (.function (placed "f" 17) [placed "y" 20]
      [.expression (.declare (placed "x_5" 24) (.identifier (placed "y" 31))),
        .conditional (.identifier (placed "y" 37))
          [.expression
            (.assign (.identifier (placed "x_5" 41)) (.identifier (placed "y" 47)))] none]),
    .expression (.identifier (placed "x_5" 54))]

theorem ofSource_resemblingSource :
    Block.ofSource resemblingSource = .ok resemblingProgram := by
  cbv

theorem spellsBindings_resemblingSource :
    ∃ p lines, compile resemblingSource = .ok p ∧ Text.lines p.code = Prelude.lines ++ lines ∧
      SpellsBindings (Generator.ofBlock p.program).declaredIds p.program lines ∧
      p.program.lineIdentifiers.map
        (List.map (Identifier.spelling (Generator.ofBlock p.program).declaredIds)) =
          [["FUN_x_5_6"], ["FUN_x_5_8", "FUN_y"], ["FUN_x_5_8", "FUN_y"], ["FUN_x_5_6"],
            ["FUN_x_5_8"], ["FUN_y"], ["FUN_x_5_8"], ["FUN_x_5_6"]] := by
  obtain ⟨p, hp, hprogram⟩ :=
    exists_compile ofSource_resemblingSource (by decide +kernel) (by decide +kernel)
  obtain ⟨lines, hlines, hspells⟩ := (Compiles.program hp).spellsBindings
  refine ⟨p, lines, hp, hlines, hspells, ?_⟩
  rw [hprogram]
  decide +kernel

end LiterateFun
