import LiterateFun.Proofs.Naming.Lowering

/-!
This module contains what can be found in scripts at any depth, and that lowering keeps it: if every
kind of expression has what its own statements have, then so does a program and its whole script.
-/

namespace LiterateFun

open Lowering

namespace Script

mutual

def Statement.sequences : Statement → List (List Statement)
  | .conditional setup _ consequent none =>
    (setup :: sequencesIn setup) ++ (consequent :: sequencesIn consequent)
  | .conditional setup _ consequent (some alternative) =>
    (setup :: sequencesIn setup) ++ (consequent :: sequencesIn consequent)
      ++ (alternative :: sequencesIn alternative)
  | .function _ _ body => body :: sequencesIn body
  | .class _ none methods => methodSequences methods
  | .class _ (some body) methods => (body :: sequencesIn body) ++ methodSequences methods
  | .binary .. => []
  | .call .. => []
  | .declare _ => []
  | .assign .. => []
  | .unassignable _ => []
  | .value _ => []
  | .return _ => []

def Method.sequences : Method → List (List Statement)
  | .mk _ _ body => body :: sequencesIn body

def sequencesIn : List Statement → List (List Statement)
  | [] => []
  | s :: script => s.sequences ++ sequencesIn script

def methodSequences : List Method → List (List Statement)
  | [] => []
  | m :: methods => m.sequences ++ methodSequences methods

end

def sequences (script : List Statement) : List (List Statement) :=
  script :: sequencesIn script

theorem sequencesIn_append (script₁ script₂ : List Statement) :
    sequencesIn (script₁ ++ script₂) = sequencesIn script₁ ++ sequencesIn script₂ := by
  induction script₁ with
  | nil => rfl
  | cons s script₁ ih => rw [List.cons_append, sequencesIn, sequencesIn, ih, List.append_assoc]

theorem sequencesIn_eq_flatMap (script : List Statement) :
    sequencesIn script = script.flatMap Statement.sequences := by
  induction script with
  | nil => rfl
  | cons s script ih => rw [sequencesIn, ih, List.flatMap_cons]

theorem methodSequences_eq_flatMap (methods : List Method) :
    methodSequences methods = methods.flatMap Method.sequences := by
  induction methods with
  | nil => rfl
  | cons m methods ih => rw [methodSequences, ih, List.flatMap_cons]

section

variable {α : Type} (part : Statement → List α) (around : List Statement → List α)

def own (code : List Statement) : List α :=
  code.flatMap part ++ around code

def contents (script : List Statement) : List α :=
  (sequences script).flatMap (own part around)

def contentsIn (code : List Statement) : List α :=
  code.flatMap part ++ (sequencesIn code).flatMap (own part around)

theorem contents_nil (script : List Statement) :
    contents (fun _ => []) around script = (sequences script).flatMap around := by
  have hown : own (fun _ => []) around = around := by
    funext code
    simp [own]
  rw [contents, hown]

theorem contents_part (script : List Statement) :
    contents part (fun _ => []) script =
      (sequences script).flatMap fun code => code.flatMap part := by
  have hown : own part (fun _ => []) = fun code => code.flatMap part := by
    funext code
    rw [own, List.append_nil]
  rw [contents, hown]

theorem contents_map {β : Type} (f : α → β) (script : List Statement) :
    contents (fun s => (part s).map f) (fun _ => []) script =
      (contents part (fun _ => []) script).map f := by
  rw [contents_part, contents_part, List.map_flatMap]
  congr 1
  funext code
  exact (List.map_flatMap ..).symm

theorem contents_eq (script : List Statement) :
    (contents part around script).Perm (contentsIn part around script ++ around script) := by
  rw [contents, sequences, List.flatMap_cons, own, contentsIn, List.append_assoc,
    List.append_assoc]
  exact List.perm_append_comm.append_left _

theorem contentsIn_append (code₁ code₂ : List Statement) :
    (contentsIn part around (code₁ ++ code₂)).Perm
      (contentsIn part around code₁ ++ contentsIn part around code₂) := by
  rw [contentsIn, List.flatMap_append, sequencesIn_append, List.flatMap_append]
  exact perm_append_append_comm _ _ _ _

end

end Script

namespace Lowering.Piece

def body : Piece → List Script.Statement
  | .class _ body => body
  | .function _ _ body => body
  | .method _ _ _ body => body

theorem collects_sequences :
    Collects Script.Statement.sequences fun p => Script.sequences p.body := by
  constructor
  · intro name constructor methods
    have hmethods : Script.methodSequences methods =
        methods.flatMap fun m => Script.sequences (ofMethod name m).body := by
      rw [Script.methodSequences_eq_flatMap]
      congr 1
      funext m
      cases m
      rw [Script.Method.sequences]
      rfl
    cases constructor with
    | none => exact hmethods
    | some body =>
      rw [Script.Statement.sequences, hmethods, Option.toList_some, List.flatMap_singleton]
      rfl
  · intro name parameters body
    rw [Script.Statement.sequences]
    rfl

end Lowering.Piece

/-- Relations of lists for which it is enough to compare the lists part by part, in any order. -/
structure IsPartwise {α : Type} (R : List α → List α → Prop) : Prop where
  of_perm : ∀ {as bs}, as.Perm bs → R as bs
  trans : ∀ {as bs cs}, R as bs → R bs cs → R as cs
  append : ∀ {as bs cs ds}, R as bs → R cs ds → R (as ++ cs) (bs ++ ds)

theorem isPartwise_perm (α : Type) : IsPartwise fun as bs : List α => as.Perm bs :=
  ⟨id, .trans, .append⟩

theorem isPartwise_subset (α : Type) : IsPartwise fun as bs : List α => as ⊆ bs where
  of_perm := List.Perm.subset
  trans := List.Subset.trans
  append h₁ h₂ := List.append_subset.2
    ⟨List.subset_append_of_subset_left _ h₁, List.subset_append_of_subset_right _ h₂⟩

open Script

def Script.Statement.isSimple : Script.Statement → Bool
  | .binary .. => true
  | .call .. => true
  | .declare _ => true
  | .assign .. => true
  | .unassignable _ => true
  | _ => false

theorem isSimple_declareOnce (v : Script.Variable) (st : Lowering.State) :
    ∀ c ∈ (declareOnce v st).1, c.isSimple := by
  unfold declareOnce
  split
  · simp
  · simp [Script.Statement.isSimple]

mutual

theorem Expr.isSimple_lower (ids : List Nat) (e : Expr) (st : Lowering.State) :
    ∀ c ∈ (e.lower ids st).1.code, c.isSimple := by
  match e with
  | .string value => exact List.forall_mem_nil _
  | .number value => exact List.forall_mem_nil _
  | .identifier x => exact List.forall_mem_nil _
  | .binary op left right =>
    have hleft := left.isSimple_lower ids st
    have hright := right.isSimple_lower ids (left.lower ids st).2
    exact List.forall_mem_append.2
      ⟨List.forall_mem_append.2 ⟨hleft, hright⟩, List.forall_mem_singleton.2 rfl⟩
  | .call callee arguments =>
    have hcallee := callee.isSimple_lower ids st
    have harguments := Expr.isSimple_lowerList ids arguments (callee.lower ids st).2
    exact List.forall_mem_append.2
      ⟨List.forall_mem_append.2 ⟨hcallee, harguments⟩, List.forall_mem_singleton.2 rfl⟩
  | .assign target value =>
    have hvalue := value.isSimple_lower ids st
    cases target <;>
      exact List.forall_mem_append.2 ⟨hvalue, List.forall_mem_singleton.2 rfl⟩
  | .declare x value =>
    have hvalue := value.isSimple_lower ids st
    have hdeclaration := isSimple_declareOnce (x.variable ids) (value.lower ids st).2
    exact List.forall_mem_append.2
      ⟨List.forall_mem_append.2 ⟨hvalue, hdeclaration⟩, List.forall_mem_singleton.2 rfl⟩

theorem Expr.isSimple_lowerList (ids : List Nat) (es : List Expr) (st : Lowering.State) :
    ∀ c ∈ (Expr.lowerList ids es st).1.code, c.isSimple := by
  match es with
  | [] => exact List.forall_mem_nil _
  | e :: es =>
    exact List.forall_mem_append.2 ⟨e.isSimple_lower ids st,
      Expr.isSimple_lowerList ids es (e.lower ids st).2⟩

end

theorem Expr.sequencesIn_lower (ids : List Nat) (e : Expr) (st : Lowering.State) :
    sequencesIn (e.lower ids st).1.code = [] := by
  rw [sequencesIn_eq_flatMap, List.flatMap_eq_nil_iff]
  intro c hc
  have hsimple := e.isSimple_lower ids st c hc
  cases c <;> first | rfl | cases hsimple

/-- Every kind of expression has what its own statements and the use of its value have, apart from
what the use of its operands has. -/
structure Accounts {α : Type} (R : List α → List α → Prop) (ids : List Nat)
    (source : Expr → List α) (part : Script.Statement → List α) : Prop where
  isPartwise : IsPartwise R
  string : ∀ s, R (part (.value (.string s))) (source (.string s))
  number : ∀ n, R (part (.value (.number n))) (source (.number n))
  identifier : ∀ x : Identifier,
    R (part (.value (.variable (x.variable ids)))) (source (.identifier x))
  binary : ∀ index op l r left right,
    R (part (.binary index op l r) ++ part (.value (.temporary index)))
      (part (.value l) ++ part (.value r) ++ source (.binary op left right))
  call : ∀ index f values callee arguments,
    R (part (.call index f values) ++ part (.value (.temporary index)))
      (part (.value f) ++ values.flatMap (fun v => part (.value v)) ++
        source (.call callee arguments))
  assign : ∀ (x : Identifier) v value,
    R (part (.assign (x.variable ids) v) ++ part (.value (.variable (x.variable ids))))
      (part (.value v) ++ source (.identifier x) ++ source (.assign (.identifier x) value))
  declare : ∀ (x : Identifier) v value st,
    R ((declareOnce (x.variable ids) st).1.flatMap part ++
        (part (.assign (x.variable ids) v) ++ part (.value (.variable (x.variable ids)))))
      (part (.value v) ++ source (.declare x value))

section

variable {α : Type} {R : List α → List α → Prop} {ids : List Nat} {source : Expr → List α}
  {part : Script.Statement → List α} (h : Accounts R ids source part)

include h

namespace Accounts

theorem append {code code' : List Script.Statement} {used used' es es' : List α}
    (hcode : R (code.flatMap part ++ used) es) (hcode' : R (code'.flatMap part ++ used') es') :
    R ((code ++ code').flatMap part ++ (used ++ used')) (es ++ es') := by
  rw [List.flatMap_append]
  exact h.isPartwise.trans (h.isPartwise.of_perm (perm_append_append_comm _ _ _ _))
    (h.isPartwise.append hcode hcode')

theorem use {code last : List Script.Statement} {used used' es es' : List α}
    (hcode : R (code.flatMap part ++ used) es)
    (hlast : R (last.flatMap part ++ used') (used ++ es')) :
    R ((code ++ last).flatMap part ++ used') (es' ++ es) := by
  have hR := h.isPartwise
  have hmiddle : R ((code ++ last).flatMap part ++ used') (code.flatMap part ++ (used ++ es')) := by
    rw [List.flatMap_append, List.append_assoc]
    exact hR.append (hR.of_perm (.refl _)) hlast
  have hright : R (code.flatMap part ++ (used ++ es')) (es ++ es') := by
    rw [← List.append_assoc]
    exact hR.append hcode (hR.of_perm (.refl _))
  exact hR.trans (hR.trans hmiddle hright) (hR.of_perm List.perm_append_comm)

end Accounts

mutual

theorem Expr.accounts_lower (e : Expr) (he : Assignable e.subexpressions) (st : Lowering.State) :
    R ((e.lower ids st).1.code.flatMap part ++ part (.value (e.lower ids st).1.value))
      (e.subexpressions.flatMap source) := by
  match e with
  | .string value =>
    rw [Expr.subexpressions, List.flatMap_singleton]
    exact h.string value
  | .number value =>
    rw [Expr.subexpressions, List.flatMap_singleton]
    exact h.number value
  | .identifier x =>
    rw [Expr.subexpressions, List.flatMap_singleton]
    exact h.identifier x
  | .binary op left right =>
    rw [Expr.subexpressions, assignable_cons (by simp), assignable_append] at he
    have hleft := left.accounts_lower he.1 st
    have hright := right.accounts_lower he.2 (left.lower ids st).2
    rw [Expr.subexpressions, List.flatMap_cons, List.flatMap_append]
    apply h.use (h.append hleft hright)
    rw [List.flatMap_singleton]
    apply h.binary
  | .call callee arguments =>
    rw [Expr.subexpressions, assignable_cons (by simp), assignable_append] at he
    have hcallee := callee.accounts_lower he.1 st
    have harguments := Expr.accounts_lowerList arguments he.2 (callee.lower ids st).2
    rw [Expr.subexpressions, List.flatMap_cons, List.flatMap_append]
    apply h.use (h.append hcallee harguments)
    rw [List.flatMap_singleton]
    apply h.call
  | .assign target value =>
    obtain ⟨x, rfl⟩ := he target value List.mem_cons_self
    rw [Expr.subexpressions, assignable_assign, assignable_append] at he
    have hvalue := value.accounts_lower he.2 st
    have hperm : (source (.identifier x) ++ source (.assign (.identifier x) value) ++
        value.subexpressions.flatMap source).Perm
          ((Expr.assign (.identifier x) value).subexpressions.flatMap source) := by
      rw [Expr.subexpressions, Expr.subexpressions, List.singleton_append, List.flatMap_cons,
        List.flatMap_cons, ← List.append_assoc]
      exact List.perm_append_comm.append_right _
    refine h.isPartwise.trans (h.use hvalue ?_) (h.isPartwise.of_perm hperm)
    rw [List.flatMap_singleton, ← List.append_assoc]
    apply h.assign
  | .declare x value =>
    rw [Expr.subexpressions, assignable_cons (by simp)] at he
    have hvalue := value.accounts_lower he st
    have hlast := h.declare x (value.lower ids st).1.value value (value.lower ids st).2
    rw [← List.append_assoc, ← List.flatMap_singleton (f := part), ← List.flatMap_append] at hlast
    have huse := h.use hvalue hlast
    rw [← List.append_assoc] at huse
    rw [Expr.subexpressions, List.flatMap_cons]
    exact huse

theorem Expr.accounts_lowerList (es : List Expr) (hes : Assignable (Expr.subexpressionsList es))
    (st : Lowering.State) :
    R ((Expr.lowerList ids es st).1.code.flatMap part ++
        (Expr.lowerList ids es st).1.value.flatMap fun v => part (.value v))
      ((Expr.subexpressionsList es).flatMap source) := by
  match es with
  | [] => exact h.isPartwise.of_perm .nil
  | e :: es =>
    rw [Expr.subexpressionsList, assignable_append] at hes
    have he := e.accounts_lower hes.1 st
    have hes := Expr.accounts_lowerList es hes.2 (e.lower ids st).2
    rw [Expr.subexpressionsList, List.flatMap_append]
    exact h.append he hes

end

end

/--
The code of an expression and the use of its value have what the expression has. What a sequence has
as a whole is not found in expressions.
-/
structure Transfers {α : Type} (R : List α → List α → Prop) (ids : List Nat)
    (source : Expr → List α) (part : Script.Statement → List α)
    (around : List Script.Statement → List α) : Prop where
  isPartwise : IsPartwise R
  class_eq : ∀ name constructor methods, part (.class name constructor methods) = []
  function_eq : ∀ name parameters body, part (.function name parameters body) = []
  return_eq : ∀ v, part (.return v) = part (.value v)
  conditional_eq : ∀ setup v consequent alternative,
    part (.conditional setup v consequent alternative) = part (.value v)
  lower : ∀ e : Expr, Assignable e.subexpressions → ∀ st,
    R ((e.lower ids st).1.code.flatMap part ++ part (.value (e.lower ids st).1.value)) (source e)
  expression : ∀ (e : Expr) st, around (e.lower ids st).1.code = []

theorem Accounts.transfers {α : Type} {R : List α → List α → Prop} {ids : List Nat}
    {source : Expr → List α} {part : Script.Statement → List α} (h : Accounts R ids source part)
    (hclass : ∀ name constructor methods, part (.class name constructor methods) = [])
    (hfunction : ∀ name parameters body, part (.function name parameters body) = [])
    (hreturn : ∀ v, part (.return v) = part (.value v))
    (hconditional : ∀ setup v consequent alternative,
      part (.conditional setup v consequent alternative) = part (.value v)) :
    Transfers R ids (fun e => e.subexpressions.flatMap source) part (fun _ => []) where
  isPartwise := h.isPartwise
  class_eq := hclass
  function_eq := hfunction
  return_eq := hreturn
  conditional_eq := hconditional
  lower e he st := e.accounts_lower h he st
  expression _ _ := rfl

def expected {α : Type} (ids : List Nat) (source : Expr → List α)
    (around : List Script.Statement → List α) (es : List Expr)
    (blocks : List (List Identifier × Block)) : List α :=
  es.flatMap source ++ blocks.flatMap fun p => around (p.2.lower ids)

section

variable {α : Type} {R : List α → List α → Prop} {ids : List Nat} {source : Expr → List α}
  {part : Script.Statement → List α} {around : List Script.Statement → List α}

theorem expected_of_nil (es : List Expr) (blocks : List (List Identifier × Block)) :
    expected ids source (fun _ => []) es blocks = es.flatMap source := by
  simp [expected]

theorem expected_append (es es' : List Expr) (blocks blocks' : List (List Identifier × Block)) :
    (expected ids source around es blocks ++ expected ids source around es' blocks').Perm
      (expected ids source around (es ++ es') (blocks ++ blocks')) := by
  rw [expected, expected, expected, List.flatMap_append, List.flatMap_append]
  exact perm_append_append_comm _ _ _ _

variable (h : Transfers R ids source part around)

include h

namespace Transfers

theorem contentsIn_arrange {pieces : List Piece}
    (hclasses : (pieces.flatMap Piece.classNames).Nodup) :
    (contentsIn part around (Piece.arrange pieces)).Perm
      (pieces.flatMap fun p => contents part around p.body) := by
  have hpart : (Piece.arrange pieces).flatMap part = [] := by
    rw [List.flatMap_eq_nil_iff]
    intro s hs
    rw [Piece.arrange, List.mem_append, List.mem_map, List.mem_filterMap] at hs
    rcases hs with ⟨name, -, rfl⟩ | ⟨p, -, hp⟩
    · apply h.class_eq
    · cases p <;> cases hp
      apply h.function_eq
  have hsequences := (Piece.collects_sequences.arrange_perm hclasses).flatMap_right
    (own part around)
  rw [contentsIn, hpart, List.nil_append, sequencesIn_eq_flatMap]
  exact hsequences.trans (.of_eq List.flatMap_assoc)

theorem contents_arrange {pieces : List Piece} {code : List Script.Statement} {as : List α}
    (hclasses : (pieces.flatMap Piece.classNames).Nodup)
    (hparts : R (pieces.flatMap (fun p => contents part around p.body) ++
      contentsIn part around code) as) :
    R (contents part around (Piece.arrange pieces ++ code))
      (as ++ around (Piece.arrange pieces ++ code)) := by
  have hR := h.isPartwise
  refine hR.trans (hR.of_perm (contents_eq _ _ _)) ?_
  refine hR.append (hR.trans (hR.of_perm ?_) hparts) (hR.of_perm (.refl _))
  exact (contentsIn_append _ _ _ _).trans ((h.contentsIn_arrange hclasses).append_right _)

theorem contents_block {b : Block} (names : List Identifier)
    (hclasses : (b.flatMap Statement.classNames).Nodup)
    (hparts : R ((lowerDeclarations ids b).flatMap (fun p => contents part around p.body) ++
        contentsIn part around (lowerStatements ids b {}).1)
      (expected ids source around (blockRoots b) (blocksIn b))) :
    R (contents part around (b.lower ids))
      (expected ids source around (blockRoots b) ((names, b) :: blocksIn b)) := by
  have hpieces : ((lowerDeclarations ids b).flatMap Piece.classNames).Nodup := by
    rw [flatMap_classNames_lowerDeclarations]
    exact hclasses
  refine h.isPartwise.trans (h.contents_arrange hpieces hparts) (h.isPartwise.of_perm ?_)
  rw [expected, expected, List.flatMap_cons, List.append_assoc]
  exact List.perm_append_comm.append_left _

theorem contentsIn_snoc {e : Expr} (he : Assignable e.subexpressions) (st : Lowering.State)
    {c : Script.Statement} (hc : part c = part (.value (e.lower ids st).1.value))
    (hsequences : c.sequences = []) :
    R (contentsIn part around ((e.lower ids st).1.code ++ [c]))
      (expected ids source around [e] []) := by
  have htransfers := h.lower e he st
  rw [contentsIn, sequencesIn_append, e.sequencesIn_lower, sequencesIn, hsequences, sequencesIn,
    List.flatMap_append, List.flatMap_singleton, hc, expected]
  simpa using htransfers

theorem contentsIn_conditional {condition : Expr} (hcondition : Assignable condition.subexpressions)
    (st : Lowering.State) {c : Script.Statement} (branches : List (List Script.Statement))
    {es : List Expr} {blocks : List (List Identifier × Block)}
    (hc : part c = part (.value (condition.lower ids st).1.value))
    (hsequences : c.sequences =
      sequences (condition.lower ids st).1.code ++ branches.flatMap sequences)
    (hbranches : R (branches.flatMap (contents part around))
      (expected ids source around es blocks)) :
    R (contentsIn part around [c])
      (expected ids source around (condition :: es) blocks) := by
  have hR := h.isPartwise
  have hperm : (contentsIn part around [c]).Perm
      (((condition.lower ids st).1.code.flatMap part ++
        part (.value (condition.lower ids st).1.value)) ++
          branches.flatMap (contents part around)) := by
    have hinner : (branches.flatMap sequences).flatMap (own part around) =
        branches.flatMap (contents part around) := List.flatMap_assoc
    rw [contentsIn, List.flatMap_singleton, hc, sequencesIn, sequencesIn, List.append_nil,
      hsequences, List.flatMap_append, hinner, sequences, condition.sequencesIn_lower,
      List.flatMap_singleton, own, h.expression, List.append_nil, ← List.append_assoc]
    exact List.perm_append_comm.append_right _
  have hexpected : source condition ++ expected ids source around es blocks =
      expected ids source around (condition :: es) blocks := by
    rw [expected, expected, List.flatMap_cons, List.append_assoc]
  rw [← hexpected]
  refine hR.trans (hR.of_perm hperm) ?_
  exact hR.append (h.lower condition hcondition st) hbranches

end Transfers

mutual

theorem Statement.transfers_lower (st : Statement) (hassignable : Assignable st.subexpressions)
    (hclasses : ∀ p ∈ st.blocks, (p.2.flatMap Statement.classNames).Nodup) (ls : Lowering.State) :
    R ((lowerDeclarations ids [st]).flatMap (fun p => contents part around p.body) ++
        contentsIn part around (st.lower ids ls).1)
      (expected ids source around st.roots st.blocks) := by
  match st with
  | .expression value => exact h.contentsIn_snoc hassignable ls rfl rfl
  | .return value => exact h.contentsIn_snoc hassignable ls (h.return_eq _) rfl
  | .declaration d =>
    have hd := d.transfers_lower hassignable hclasses
    rw [lowerDeclarations, lowerDeclarations, List.flatMap_singleton]
    exact h.isPartwise.trans (h.isPartwise.of_perm (.of_eq (List.append_nil _))) hd
  | .conditional condition consequent none =>
    rw [Statement.subexpressions, assignable_append] at hassignable
    rw [Statement.blocks, List.forall_mem_cons] at hclasses
    have hconsequent := h.contents_block [] hclasses.1
      (transfers_statements consequent hassignable.2 hclasses.2 {})
    apply h.contentsIn_conditional hassignable.1 { ls with declared := [] }
      [Block.lower ids consequent] (h.conditional_eq _ _ _ _)
    · simp only [Statement.sequences, List.flatMap_singleton]
      rfl
    · rw [List.flatMap_singleton]
      exact hconsequent
  | .conditional condition consequent (some alternative) =>
    rw [Statement.subexpressions, assignable_append, assignable_append] at hassignable
    rw [Statement.blocks, List.forall_mem_append, List.forall_mem_cons, List.forall_mem_cons]
      at hclasses
    have hconsequent := h.contents_block [] hclasses.1.1
      (transfers_statements consequent hassignable.1.2 hclasses.1.2 {})
    have halternative := h.contents_block [] hclasses.2.1
      (transfers_statements alternative hassignable.2 hclasses.2.2 {})
    apply h.contentsIn_conditional hassignable.1.1 { ls with declared := [] }
      [Block.lower ids consequent, Block.lower ids alternative] (h.conditional_eq _ _ _ _)
    · simp only [Statement.sequences, List.flatMap_cons, List.flatMap_nil, List.append_nil,
        List.append_assoc]
      rfl
    · rw [List.flatMap_cons, List.flatMap_singleton]
      exact h.isPartwise.trans (h.isPartwise.append hconsequent halternative)
        (h.isPartwise.of_perm (expected_append _ _ _ _))

theorem Declaration.transfers_lower (d : Declaration) (hassignable : Assignable d.subexpressions)
    (hclasses : ∀ p ∈ d.blocks, (p.2.flatMap Statement.classNames).Nodup) :
    R (contents part around (d.lower ids).body)
      (expected ids source around d.roots d.blocks) := by
  match d with
  | .class name body =>
    rw [Declaration.blocks, List.forall_mem_cons] at hclasses
    exact h.contents_block _ hclasses.1 (transfers_statements body hassignable hclasses.2 {})
  | .function name parameters body =>
    rw [Declaration.blocks, List.forall_mem_cons] at hclasses
    exact h.contents_block _ hclasses.1 (transfers_statements body hassignable hclasses.2 {})
  | .method owner name parameters body =>
    rw [Declaration.blocks, List.forall_mem_cons] at hclasses
    exact h.contents_block _ hclasses.1 (transfers_statements body hassignable hclasses.2 {})

theorem transfers_statements (b : List Statement) (hassignable : Assignable (blockSubexpressions b))
    (hclasses : ∀ p ∈ blocksIn b, (p.2.flatMap Statement.classNames).Nodup) (ls : Lowering.State) :
    R ((lowerDeclarations ids b).flatMap (fun p => contents part around p.body) ++
        contentsIn part around (lowerStatements ids b ls).1)
      (expected ids source around (blockRoots b) (blocksIn b)) := by
  have hR := h.isPartwise
  match b with
  | [] => exact hR.of_perm .nil
  | st :: b =>
    rw [blockSubexpressions, assignable_append] at hassignable
    rw [blocksIn, List.forall_mem_append] at hclasses
    have hst := st.transfers_lower hassignable.1 hclasses.1 ls
    have hb := transfers_statements b hassignable.2 hclasses.2 (st.lower ids ls).2
    rw [lowerDeclarations_cons, List.flatMap_append]
    refine hR.trans (hR.of_perm ?_) (hR.trans (hR.append hst hb) (hR.of_perm ?_))
    · exact ((contentsIn_append _ _ _ _).append_left _).trans (perm_append_append_comm _ _ _ _)
    · exact expected_append _ _ _ _

end

theorem Block.transfers_lower {b : Block} (hassignable : Assignable (blockSubexpressions b))
    (hclasses : ∀ p ∈ ([], b) :: blocksIn b, (p.2.flatMap Statement.classNames).Nodup) :
    R (contents part around (b.lower ids))
      (expected ids source around (blockRoots b) (([], b) :: blocksIn b)) := by
  rw [List.forall_mem_cons] at hclasses
  exact h.contents_block [] hclasses.1 (transfers_statements h b hassignable hclasses.2 {})

end

end LiterateFun
