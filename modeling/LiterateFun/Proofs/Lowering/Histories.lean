import LiterateFun.Proofs.Emission.Compiled
import LiterateFun.Proofs.Lowering.Contents

/-!
This module contains the histories of generators, which add statements of a block and write scripts
in any order. Every script of a history has a text. It has the code of all parts that the generator
has by then, and the bindings that it knows are those of the parts at the first script.
-/

namespace LiterateFun

open Lowering Script

mutual

theorem Statement.contains_substatement (st : Statement) {st' : Statement}
    (h : st' ∈ st.substatements) :
    st'.subexpressions ⊆ st.subexpressions ∧ st'.blocks ⊆ st.blocks := by
  match st with
  | .expression value =>
    cases List.mem_singleton.1 h
    exact ⟨List.Subset.refl _, List.Subset.refl _⟩
  | .return value =>
    cases List.mem_singleton.1 h
    exact ⟨List.Subset.refl _, List.Subset.refl _⟩
  | .conditional condition consequent none =>
    rcases List.mem_cons.1 h with rfl | h
    · exact ⟨List.Subset.refl _, List.Subset.refl _⟩
    · have ⟨hes, hbs⟩ := contains_blockSubstatement consequent h
      exact ⟨List.subset_append_of_subset_right _ hes, List.subset_cons_of_subset _ hbs⟩
  | .conditional condition consequent (some alternative) =>
    rw [Statement.substatements, List.mem_cons, List.mem_append] at h
    rcases h with rfl | h | h
    · exact ⟨List.Subset.refl _, List.Subset.refl _⟩
    · have ⟨hes, hbs⟩ := contains_blockSubstatement consequent h
      rw [Statement.subexpressions, Statement.blocks]
      exact ⟨List.subset_append_of_subset_left _ (List.subset_append_of_subset_right _ hes),
        List.subset_append_of_subset_left _ (List.subset_cons_of_subset _ hbs)⟩
    · have ⟨hes, hbs⟩ := contains_blockSubstatement alternative h
      rw [Statement.subexpressions, Statement.blocks]
      exact ⟨List.subset_append_of_subset_right _ hes,
        List.subset_append_of_subset_right _ (List.subset_cons_of_subset _ hbs)⟩
  | .declaration d =>
    rcases List.mem_cons.1 h with rfl | h
    · exact ⟨List.Subset.refl _, List.Subset.refl _⟩
    · exact d.contains_substatement h

theorem Declaration.contains_substatement (d : Declaration) {st : Statement}
    (h : st ∈ d.substatements) :
    st.subexpressions ⊆ d.subexpressions ∧ st.blocks ⊆ d.blocks := by
  match d with
  | .class name body | .function name parameters body | .method owner name parameters body =>
    have ⟨hes, hbs⟩ := contains_blockSubstatement body h
    exact ⟨hes, List.subset_cons_of_subset _ hbs⟩

theorem contains_blockSubstatement (b : List Statement) {st : Statement}
    (h : st ∈ blockSubstatements b) :
    st.subexpressions ⊆ blockSubexpressions b ∧ st.blocks ⊆ blocksIn b := by
  match b with
  | [] => cases h
  | st' :: b =>
    rcases List.mem_append.1 h with h | h
    · have ⟨hes, hbs⟩ := st'.contains_substatement h
      exact ⟨List.subset_append_of_subset_left _ hes, List.subset_append_of_subset_left _ hbs⟩
    · have ⟨hes, hbs⟩ := contains_blockSubstatement b h
      exact ⟨List.subset_append_of_subset_right _ hes, List.subset_append_of_subset_right _ hbs⟩

end

theorem subset_blockSubstatements (b : Block) : b ⊆ blockSubstatements b := by
  induction b with
  | nil => exact List.nil_subset _
  | cons st b ih =>
    refine List.cons_subset.2 ⟨List.mem_append_left _ ?_, List.subset_append_of_subset_right _ ih⟩
    cases st with
    | conditional condition consequent alternative =>
      cases alternative <;> exact List.mem_cons_self
    | _ => exact List.mem_cons_self

theorem contains_of_subset {b c : Block} (h : c ⊆ blockSubstatements b) :
    blockSubexpressions c ⊆ blockSubexpressions b ∧ blocksIn c ⊆ blocksIn b := by
  induction c with
  | nil => exact ⟨List.nil_subset _, List.nil_subset _⟩
  | cons st c ih =>
    rw [List.cons_subset] at h
    have hst := contains_blockSubstatement b h.1
    have hc := ih h.2
    exact ⟨List.append_subset.2 ⟨hst.1, hc.1⟩, List.append_subset.2 ⟨hst.2, hc.2⟩⟩

namespace Script

def Statement.unassignables : Statement → List Value
  | .unassignable result => [result]
  | _ => []

mutual

theorem Statement.hasText_of_unassignables (s : Statement) (hs : s.unassignables = [])
    (h : s.sequences.flatMap (fun code => code.flatMap Statement.unassignables) = []) :
    s.hasText := by
  match s with
  | .binary .. | .call .. | .declare _ | .assign .. | .value _ | .return _ => rfl
  | .unassignable result => cases hs
  | .conditional setup _ consequent none =>
    rw [Statement.sequences, List.flatMap_append, List.append_eq_nil_iff] at h
    rw [Statement.hasText, haveText_of_unassignables setup h.1,
      haveText_of_unassignables consequent h.2]
    rfl
  | .conditional setup _ consequent (some alternative) =>
    rw [Statement.sequences, List.flatMap_append, List.append_eq_nil_iff, List.flatMap_append,
      List.append_eq_nil_iff] at h
    rw [Statement.hasText, haveText_of_unassignables setup h.1.1,
      haveText_of_unassignables consequent h.1.2, haveText_of_unassignables alternative h.2]
    rfl
  | .function _ _ body => exact haveText_of_unassignables body h
  | .class _ none methods => exact methodsHaveText_of_unassignables methods h
  | .class _ (some body) methods =>
    rw [Statement.sequences, List.flatMap_append, List.append_eq_nil_iff] at h
    rw [Statement.hasText, haveText_of_unassignables body h.1,
      methodsHaveText_of_unassignables methods h.2]
    rfl

theorem Method.hasText_of_unassignables (m : Method)
    (h : m.sequences.flatMap (fun code => code.flatMap Statement.unassignables) = []) :
    m.hasText := by
  match m with
  | .mk _ _ body => exact haveText_of_unassignables body h

theorem haveText_of_unassignables (script : List Statement)
    (h : (sequences script).flatMap (fun code => code.flatMap Statement.unassignables) = []) :
    haveText script := by
  match script with
  | [] => rfl
  | s :: script =>
    rw [sequences, sequencesIn, List.flatMap_cons, List.flatMap_append, List.append_eq_nil_iff,
      List.append_eq_nil_iff, List.flatMap_cons, List.append_eq_nil_iff] at h
    rw [haveText, s.hasText_of_unassignables h.1.1 h.2.1, haveText_of_unassignables script]
    · rfl
    · rw [sequences, List.flatMap_cons, h.1.2, h.2.2]
      rfl

theorem methodsHaveText_of_unassignables (methods : List Method)
    (h : (methodSequences methods).flatMap
      (fun code => code.flatMap Statement.unassignables) = []) :
    methodsHaveText methods := by
  match methods with
  | [] => rfl
  | m :: methods =>
    rw [methodSequences, List.flatMap_append, List.append_eq_nil_iff] at h
    rw [methodsHaveText, m.hasText_of_unassignables h.1,
      methodsHaveText_of_unassignables methods h.2]
    rfl

end

end Script

theorem accounts_unassignables (ids : List Nat) :
    Accounts (fun as bs : List Script.Value => as ⊆ bs) ids (fun _ => [])
      Statement.unassignables where
  isPartwise := isPartwise_subset _
  string _ := List.nil_subset _
  number _ := List.nil_subset _
  identifier _ := List.nil_subset _
  binary _ _ _ _ _ _ := List.nil_subset _
  call _ _ _ _ _ := List.nil_subset _
  assign _ _ _ := List.nil_subset _
  declare x v value st := by
    unfold declareOnce
    split <;> exact List.nil_subset _

theorem transfers_unassignables (ids : List Nat) :
    Transfers (fun as bs : List Script.Value => as ⊆ bs) ids
      (fun e => e.subexpressions.flatMap fun _ => []) Statement.unassignables (fun _ => []) :=
  (accounts_unassignables ids).transfers (fun _ _ _ => rfl) (fun _ _ _ => rfl) (fun _ => rfl)
    fun _ _ _ _ => rfl

theorem Generator.generate?_of_unassignables {g : Generator} {es : List Expr}
    (h : (sequences g.script.1).flatMap (fun code => code.flatMap Statement.unassignables) ⊆
      es.flatMap fun e => e.subexpressions.flatMap fun _ => []) :
    g.generate? = some (Script.text g.script.1, g.script.2) := by
  rw [List.flatMap_eq_nil_iff.2 fun e _ => List.flatMap_eq_nil_iff.2 fun _ _ => rfl,
    List.subset_nil] at h
  have htext : text? g.script.1 = some (Script.text g.script.1) :=
    if_pos (haveText_of_unassignables _ h)
  exact congrArg (Option.map fun text => (text, g.script.2)) htext

theorem Resolved.generate?_ofBlock {globals : List (String × Nat)} {b : Block}
    (h : Resolved globals b) :
    (Generator.ofBlock b).generate? =
      some (Script.text (Generator.ofBlock b).script.1, (Generator.ofBlock b).script.2) := by
  have hsubset := Block.transfers_lower (transfers_unassignables (Generator.ofBlock b).declaredIds)
    h.assignable fun p => h.nodup_classNames
  rw [contents_part, expected_of_nil,
    ← Generator.script_ofBlock (h.nodup_hoisted List.mem_cons_self)] at hsubset
  exact Generator.generate?_of_unassignables hsubset

namespace Generator

inductive Action
  | add (st : Statement)
  | addDeclaration (d : Declaration)
  | generate

def Action.statements : Action → List Statement
  | .add st => [st]
  | .addDeclaration d => [.declaration d]
  | .generate => []

def Action.isGenerate : Action → Bool
  | .generate => true
  | _ => false

def perform? (g : Generator) : Action → Option Generator
  | .add st => some (g.add st)
  | .addDeclaration d => some (g.addDeclaration d)
  | .generate => g.generate?.map Prod.snd

def performAll? (g : Generator) : List Action → Option Generator
  | [] => some g
  | a :: history => (g.perform? a).bind fun g => g.performAll? history

def beforeScripts (history : List Action) : List Action :=
  history.takeWhile fun a => !a.isGenerate

def parts (g : Generator) : Block :=
  g.declarations.map .declaration ++ g.statements

def knownIds (g : Generator) : List Nat :=
  g.ids.getD g.declaredIds

def Remains (added : List Statement) (st : Statement) : Prop :=
  ∃ before after, added = before ++ st :: after ∧
    ∀ name ∈ st.classNames, name ∉ after.flatMap Statement.classNames

structure IsFrom (added : List Statement) (g : Generator) : Prop where
  declarations : ∀ d ∈ g.declarations, .declaration d ∈ added
  classNames : (g.declarations.flatMap Declaration.classNames).Nodup
  statements : ∀ st ∈ g.statements, st ∈ added ∧ st.declaration? = none

section

variable {g : Generator}

theorem isClassNamed_iff {name : String} {d : Declaration} :
    isClassNamed name d ↔ name ∈ d.classNames := by
  cases d with
  | «class» name' body =>
    rw [isClassNamed, decide_eq_true_eq, Declaration.classNames, List.mem_singleton, eq_comm]
  | _ => simp [isClassNamed, Declaration.classNames]

theorem any_isClassNamed_iff {ds : List Declaration} {name : String} :
    ds.any (isClassNamed name) ↔ name ∈ ds.flatMap Declaration.classNames := by
  simp only [List.any_eq_true, List.mem_flatMap, isClassNamed_iff]

theorem flatMap_classNames_replace {name : String} {d : Declaration} (hd : d.classNames = [name])
    (ds : List Declaration) :
    (ds.map fun d' => if isClassNamed name d' then d else d').flatMap Declaration.classNames =
      ds.flatMap Declaration.classNames := by
  rw [List.flatMap_map]
  congr 1
  funext d'
  by_cases h : isClassNamed name d'
  · rw [if_pos h, hd]
    rw [isClassNamed_iff] at h
    cases d' with
    | «class» name' body => rw [List.mem_singleton.1 h, Declaration.classNames]
    | _ => cases h
  · rw [if_neg h]

theorem addDeclaration_cases (g : Generator) (d : Declaration) :
    (∃ name, d.classNames = [name] ∧ name ∈ g.declarations.flatMap Declaration.classNames ∧
      g.addDeclaration d = { g with
        declarations := g.declarations.map fun d' => if isClassNamed name d' then d else d' }) ∨
    ((∀ name ∈ d.classNames, name ∉ g.declarations.flatMap Declaration.classNames) ∧
      g.addDeclaration d = { g with declarations := g.declarations ++ [d] }) := by
  cases d with
  | «class» name body =>
    by_cases h : g.declarations.any (isClassNamed name.name)
    · exact .inl ⟨name.name, rfl, any_isClassNamed_iff.1 h, if_pos h⟩
    · refine .inr ⟨fun name' hname' => ?_, if_neg h⟩
      rw [List.mem_singleton.1 hname', ← any_isClassNamed_iff]
      exact h
  | function name parameters body => exact .inr ⟨List.forall_mem_nil _, rfl⟩
  | method owner name parameters body => exact .inr ⟨List.forall_mem_nil _, rfl⟩

theorem ids_addDeclaration (g : Generator) (d : Declaration) :
    (g.addDeclaration d).ids = g.ids := by
  rcases g.addDeclaration_cases d with ⟨_, _, _, h⟩ | ⟨_, h⟩ <;> rw [h]

theorem ids_add (g : Generator) (st : Statement) : (g.add st).ids = g.ids := by
  cases st with
  | declaration d => exact g.ids_addDeclaration d
  | _ => rfl

theorem ids_script (g : Generator) : g.script.2.ids = some g.knownIds :=
  rfl

theorem add_of_declaration?_eq_none {st : Statement} (h : st.declaration? = none) :
    g.add st = { g with statements := g.statements ++ [st] } := by
  cases st with
  | declaration d => cases h
  | _ => rfl

theorem perform?_cases {a : Action} {g' : Generator} (h : g.perform? a = some g') :
    (∃ st, a.isGenerate = false ∧ a.statements = [st] ∧ g' = g.add st) ∨
      (a.isGenerate = true ∧ a.statements = [] ∧ g' = g.script.2) := by
  cases a with
  | add st => exact .inl ⟨st, rfl, rfl, (Option.some.inj h).symm⟩
  | addDeclaration d => exact .inl ⟨.declaration d, rfl, rfl, (Option.some.inj h).symm⟩
  | generate =>
    obtain ⟨p, hp, rfl⟩ := Option.map_eq_some_iff.1 h
    obtain ⟨text, -, rfl⟩ := Option.map_eq_some_iff.1 hp
    exact .inr ⟨rfl, rfl, rfl⟩

variable {added : List Statement}

namespace IsFrom

theorem empty (added : List Statement) : IsFrom added {} where
  declarations := List.forall_mem_nil _
  classNames := .nil
  statements := List.forall_mem_nil _

theorem addDeclaration (h : g.IsFrom added) {d : Declaration} (hd : .declaration d ∈ added) :
    (g.addDeclaration d).IsFrom added := by
  rcases g.addDeclaration_cases d with ⟨name, hname, -, heq⟩ | ⟨hnew, heq⟩
  · rw [heq]
    refine ⟨List.forall_mem_map.2 fun d' hd' => ?_, ?_, h.statements⟩
    · split
      · exact hd
      · exact h.declarations d' hd'
    · rw [flatMap_classNames_replace hname]
      exact h.classNames
  · rw [heq]
    refine ⟨List.forall_mem_append.2 ⟨h.declarations, List.forall_mem_singleton.2 hd⟩, ?_,
      h.statements⟩
    rw [List.flatMap_append, List.flatMap_singleton]
    refine h.classNames.append ?_ fun name hname hname' => hnew name hname' hname
    cases d <;> simp [Declaration.classNames]

theorem add (h : g.IsFrom added) {st : Statement} (hst : st ∈ added) :
    (g.add st).IsFrom added := by
  cases hdeclaration : st.declaration? with
  | none =>
    rw [add_of_declaration?_eq_none hdeclaration]
    exact ⟨h.declarations, h.classNames, List.forall_mem_append.2
      ⟨h.statements, List.forall_mem_singleton.2 ⟨hst, hdeclaration⟩⟩⟩
  | some d =>
    cases st with
    | declaration d => exact h.addDeclaration hst
    | _ => cases hdeclaration

theorem parts_subset (h : g.IsFrom added) : g.parts ⊆ added := by
  refine List.append_subset.2 ⟨?_, fun st hst => (h.statements st hst).1⟩
  intro st hst
  obtain ⟨d, hd, rfl⟩ := List.mem_map.1 hst
  exact h.declarations d hd

theorem filterMap_declaration?_parts (h : g.IsFrom added) :
    g.parts.filterMap Statement.declaration? = g.declarations := by
  have hstatements : g.statements.filterMap Statement.declaration? = [] :=
    List.filterMap_eq_nil_iff.2 fun st hst => (h.statements st hst).2
  rw [parts, List.filterMap_append, hstatements, List.append_nil, List.filterMap_map]
  exact List.filterMap_some

theorem filter_declaration?_parts (h : g.IsFrom added) :
    g.parts.filter (fun st => st.declaration?.isNone) = g.statements := by
  have hdeclarations : (g.declarations.map Statement.declaration).filter
      (fun st => st.declaration?.isNone) = [] := by
    simp [Statement.declaration?]
  rw [parts, List.filter_append, hdeclarations, List.nil_append, List.filter_eq_self]
  intro st hst
  rw [(h.statements st hst).2]
  rfl

theorem script_eq (h : g.IsFrom added) :
    g.script.1 = Piece.arrange (lowerDeclarations g.knownIds g.parts) ++
      (lowerStatements g.knownIds g.parts g.state).1 := by
  rw [lowerDeclarations_eq_map, ← lowerStatements_filter, h.filterMap_declaration?_parts,
    h.filter_declaration?_parts]
  rfl

theorem classNames_eq_nil (h : g.IsFrom added) {st : Statement} (hst : st ∈ g.statements) :
    st.classNames = [] := by
  have hnone := (h.statements st hst).2
  cases st with
  | declaration d => cases hnone
  | _ => rfl

theorem nodup_classNames (h : g.IsFrom added) : (g.parts.flatMap Statement.classNames).Nodup := by
  have hstatements : g.statements.flatMap Statement.classNames = [] :=
    List.flatMap_eq_nil_iff.2 fun st hst => h.classNames_eq_nil hst
  rw [parts, List.flatMap_append, hstatements, List.append_nil, List.flatMap_map]
  exact h.classNames

variable {globals : List (String × Nat)} {b : Block} {α : Type} {R : List α → List α → Prop}
  {source : Expr → List α} {part : Script.Statement → List α}

theorem contains_parts (h : g.IsFrom added) (hadded : added ⊆ blockSubstatements b) :
    blockSubexpressions g.parts ⊆ blockSubexpressions b ∧ blocksIn g.parts ⊆ blocksIn b :=
  contains_of_subset (List.Subset.trans h.parts_subset hadded)

theorem assignable (h : g.IsFrom added) (hb : Resolved globals b)
    (hadded : added ⊆ blockSubstatements b) : Assignable (blockSubexpressions g.parts) := by
  intro target value hmem
  exact hb.assignable target value ((h.contains_parts hadded).1 hmem)

theorem transfers_script (h : g.IsFrom added) (hb : Resolved globals b)
    (hadded : added ⊆ blockSubstatements b)
    (ht : Transfers R g.knownIds source part fun _ => []) :
    R ((sequences g.script.1).flatMap fun code => code.flatMap part)
      ((blockRoots g.parts).flatMap source) := by
  have hclasses : ∀ p ∈ blocksIn g.parts, (p.2.flatMap Statement.classNames).Nodup :=
    fun p hp => hb.nodup_classNames (List.mem_cons_of_mem _ ((h.contains_parts hadded).2 hp))
  have hpieces : ((lowerDeclarations g.knownIds g.parts).flatMap Piece.classNames).Nodup := by
    rw [flatMap_classNames_lowerDeclarations]
    exact h.nodup_classNames
  have hparts := ht.contents_arrange hpieces
    (transfers_statements ht g.parts (h.assignable hb hadded) hclasses g.state)
  rw [← h.script_eq, contents_part, expected_of_nil, List.append_nil] at hparts
  exact hparts

theorem generate?_eq (h : g.IsFrom added) (hb : Resolved globals b)
    (hadded : added ⊆ blockSubstatements b) :
    g.generate? = some (Script.text g.script.1, g.script.2) := by
  exact generate?_of_unassignables (h.transfers_script hb hadded (transfers_unassignables _))

theorem perform? (h : g.IsFrom added) (hb : Resolved globals b)
    (hadded : added ⊆ blockSubstatements b) (a : Action) : ∃ g', g.perform? a = some g' := by
  cases a with
  | add st => exact ⟨_, rfl⟩
  | addDeclaration d => exact ⟨_, rfl⟩
  | generate => exact ⟨_, congrArg (Option.map Prod.snd) (h.generate?_eq hb hadded)⟩

theorem of_perform? (h : g.IsFrom added) {a : Action} (ha : a.statements ⊆ added)
    {g' : Generator} (hg' : g.perform? a = some g') : g'.IsFrom added := by
  rcases perform?_cases hg' with ⟨st, -, hst, rfl⟩ | ⟨-, -, rfl⟩
  · rw [hst] at ha
    exact h.add (List.cons_subset.1 ha).1
  · exact ⟨h.declarations, h.classNames, h.statements⟩

theorem performAll? (h : g.IsFrom added) (hb : Resolved globals b)
    (hadded : added ⊆ blockSubstatements b) {history : List Action}
    (hhistory : history.flatMap Action.statements ⊆ added) :
    ∃ g', g.performAll? history = some g' ∧ g'.IsFrom added := by
  induction history generalizing g with
  | nil => exact ⟨g, rfl, h⟩
  | cons a history ih =>
    rw [List.flatMap_cons, List.append_subset] at hhistory
    obtain ⟨g', hg'⟩ := h.perform? hb hadded a
    obtain ⟨g'', hg'', h''⟩ := ih (h.of_perform? hhistory.1 hg') hhistory.2
    refine ⟨g'', ?_, h''⟩
    rw [Generator.performAll?, hg', Option.bind_some, hg'']

end IsFrom

theorem ids_of_perform? {ids : List Nat} (h : g.ids = some ids) {a : Action} {g' : Generator}
    (hg' : g.perform? a = some g') : g'.ids = some ids := by
  rcases perform?_cases hg' with ⟨st, -, -, rfl⟩ | ⟨-, -, rfl⟩
  · rw [ids_add, h]
  · rw [ids_script, knownIds, h]
    rfl

theorem ids_of_performAll? {ids : List Nat} (h : g.ids = some ids) {history : List Action}
    {g' : Generator} (hg' : g.performAll? history = some g') : g'.ids = some ids := by
  induction history generalizing g with
  | nil =>
    cases hg'
    exact h
  | cons a history ih =>
    obtain ⟨g'', hg'', hrest⟩ := Option.bind_eq_some_iff.1 hg'
    exact ih (ids_of_perform? h hg'') hrest

theorem exists_beforeScripts (h : g.ids = none) {history : List Action} {g' : Generator}
    (hg' : g.performAll? history = some g') :
    ∃ first, g.performAll? (beforeScripts history) = some first ∧
      g'.knownIds = first.declaredIds := by
  induction history generalizing g with
  | nil =>
    cases hg'
    refine ⟨_, rfl, ?_⟩
    rw [knownIds, h]
    rfl
  | cons a history ih =>
    obtain ⟨g'', hg'', hrest⟩ := Option.bind_eq_some_iff.1 hg'
    rcases perform?_cases hg'' with ⟨st, ha, -, rfl⟩ | ⟨ha, -, rfl⟩
    · obtain ⟨first, hfirst, hknown⟩ := ih ((g.ids_add st).trans h) hrest
      refine ⟨first, ?_, hknown⟩
      rw [beforeScripts, List.takeWhile_cons_of_pos (by rw [ha]; rfl), performAll?, hg'']
      exact hfirst
    -- From the first script on, the bindings are stored.
    · have hids : g.script.2.ids = some g.declaredIds := by
        rw [ids_script, knownIds, h]
        rfl
      refine ⟨g, ?_, ?_⟩
      · rw [beforeScripts, List.takeWhile_cons_of_neg (by simp [ha])]
        rfl
      · rw [knownIds, ids_of_performAll? hids hrest]
        rfl

theorem mem_parts {st : Statement} :
    st ∈ g.parts ↔ (∃ d ∈ g.declarations, .declaration d = st) ∨ st ∈ g.statements := by
  rw [parts, List.mem_append, List.mem_map]

theorem IsFrom.mem_parts_addDeclaration (h : g.IsFrom added) {d : Declaration} {st : Statement} :
    st ∈ (g.addDeclaration d).parts ↔
      st = .declaration d ∨ st ∈ g.parts ∧ ∀ name ∈ st.classNames, name ∉ d.classNames := by
  have hstatement (hst : st ∈ g.statements) : ∀ name ∈ st.classNames, name ∉ d.classNames := by
    rw [h.classNames_eq_nil hst]
    exact List.forall_mem_nil _
  rw [mem_parts, mem_parts]
  rcases g.addDeclaration_cases d with ⟨name, hname, hmem, heq⟩ | ⟨hnew, heq⟩
  -- Only the classes of this name give way, and there is one.
  · have hclash (d' : Declaration) :
        isClassNamed name d' ↔ ¬∀ n ∈ d'.classNames, n ∉ d.classNames := by
      simp [isClassNamed_iff, hname]
    rw [heq]
    simp only [List.mem_map, exists_exists_and_eq_and]
    constructor
    · rintro (⟨d', hd', rfl⟩ | hst)
      · by_cases hd : isClassNamed name d'
        · exact .inl (by rw [if_pos hd])
        · rw [if_neg hd]
          exact .inr ⟨.inl ⟨d', hd', rfl⟩, not_not.1 (mt (hclash d').2 hd)⟩
      · exact .inr ⟨.inr hst, hstatement hst⟩
    · rintro (rfl | ⟨⟨d', hd', rfl⟩ | hst, hnames⟩)
      · obtain ⟨d', hd', hname'⟩ := List.mem_flatMap.1 hmem
        exact .inl ⟨d', hd', by rw [if_pos (isClassNamed_iff.2 hname')]⟩
      · exact .inl ⟨d', hd', by rw [if_neg fun hd => (hclash d').1 hd hnames]⟩
      · exact .inr hst
  · rw [heq]
    simp only [List.mem_append, List.mem_singleton]
    constructor
    · rintro (⟨d', hd' | rfl, rfl⟩ | hst)
      · refine .inr ⟨.inl ⟨d', hd', rfl⟩, fun name hname hname' => hnew name hname' ?_⟩
        exact List.mem_flatMap.2 ⟨d', hd', hname⟩
      · exact .inl rfl
      · exact .inr ⟨.inr hst, hstatement hst⟩
    · rintro (rfl | ⟨⟨d', hd', rfl⟩ | hst, -⟩)
      · exact .inl ⟨d, .inr rfl, rfl⟩
      · exact .inl ⟨d', .inl hd', rfl⟩
      · exact .inr hst

theorem IsFrom.mem_parts_add (h : g.IsFrom added) {st' st : Statement} :
    st ∈ (g.add st').parts ↔
      st = st' ∨ st ∈ g.parts ∧ ∀ name ∈ st.classNames, name ∉ st'.classNames := by
  cases st' with
  | declaration d => exact h.mem_parts_addDeclaration
  | _ => simp [Generator.add, parts, Statement.classNames, or_comm, or_left_comm, or_assoc]

theorem IsFrom.mem_parts_of_perform? (h : g.IsFrom added) {a : Action} {g' : Generator}
    (hg' : g.perform? a = some g') {st : Statement} :
    st ∈ g'.parts ↔ st ∈ a.statements ∨
      st ∈ g.parts ∧ ∀ name ∈ st.classNames, name ∉ a.statements.flatMap Statement.classNames := by
  rcases perform?_cases hg' with ⟨st', -, hst', rfl⟩ | ⟨-, hnil, rfl⟩
  · rw [hst', List.flatMap_singleton, List.mem_singleton]
    exact h.mem_parts_add
  · have hparts : g.script.2.parts = g.parts := rfl
    rw [hnil, hparts]
    simp

theorem remains_statements_append {a : Action} {added : List Statement} {st : Statement} :
    Remains (a.statements ++ added) st ↔ Remains added st ∨
      st ∈ a.statements ∧ ∀ name ∈ st.classNames, name ∉ added.flatMap Statement.classNames := by
  have hcons (st' : Statement) : Remains (st' :: added) st ↔ Remains added st ∨
      st ∈ [st'] ∧ ∀ name ∈ st.classNames, name ∉ added.flatMap Statement.classNames := by
    rw [List.mem_singleton]
    constructor
    · rintro ⟨_ | ⟨_, before⟩, after, heq, hnames⟩
      · cases heq
        exact .inr ⟨rfl, hnames⟩
      · cases heq
        exact .inl ⟨before, after, rfl, hnames⟩
    · rintro (⟨before, after, rfl, hnames⟩ | ⟨rfl, hnames⟩)
      · exact ⟨st' :: before, after, rfl, hnames⟩
      · exact ⟨[], added, rfl, hnames⟩
  cases a with
  | add st' => exact hcons st'
  | addDeclaration d => exact hcons (.declaration d)
  | generate => simp [Action.statements]

theorem IsFrom.mem_parts_of_performAll? (h : g.IsFrom added) {history : List Action}
    (hhistory : history.flatMap Action.statements ⊆ added) {g' : Generator}
    (hg' : g.performAll? history = some g') {st : Statement} :
    st ∈ g'.parts ↔ Remains (history.flatMap Action.statements) st ∨
      st ∈ g.parts ∧ ∀ name ∈ st.classNames,
        name ∉ (history.flatMap Action.statements).flatMap Statement.classNames := by
  induction history generalizing g with
  | nil =>
    cases hg'
    simp [Remains]
  | cons a history ih =>
    rw [List.flatMap_cons, List.append_subset] at hhistory
    obtain ⟨g'', hg'', hrest⟩ := Option.bind_eq_some_iff.1 hg'
    rw [ih (h.of_perform? hhistory.1 hg'') hhistory.2 hrest, h.mem_parts_of_perform? hg'',
      List.flatMap_cons, remains_statements_append, List.flatMap_append]
    simp only [List.mem_append, not_or, forall_and]
    tauto

theorem mem_parts_iff {history : List Action}
    (hg : ({} : Generator).performAll? history = some g) {st : Statement} :
    st ∈ g.parts ↔ Remains (history.flatMap Action.statements) st := by
  rw [(IsFrom.empty _).mem_parts_of_performAll? (List.Subset.refl _) hg]
  exact or_iff_left fun h => nomatch h.1

end

open Resolution Session

/--
A block with an assignment to something else than an identifier is refused, at whatever depth the
assignment is. With the statements of a block that is accepted, every history comes to its end.
-/
theorem writable_of_resolve {s : Session} (hs : s.Reachable) (b : Block) :
    (¬Assignable (blockSubexpressions b) → ∃ e, (s.resolve b).2.2 = some e) ∧
      ((s.resolve b).2.2 = none → ∀ history : List Action,
        history.flatMap Action.statements ⊆ blockSubstatements (s.resolve b).1 →
          ∃ g, ({} : Generator).performAll? history = some g) := by
  constructor
  · intro hassignable
    apply Option.ne_none_iff_exists'.1
    intro hnone
    exact hassignable (acceptable_of_resolve hnone).assignable
  · intro hnone history hhistory
    have hb := resolved_resolve hs hnone
    obtain ⟨g, hg, -⟩ := (IsFrom.empty _).performAll? hb hhistory (List.Subset.refl _)
    exact ⟨g, hg⟩

def guardedAssignment (target : Expr) : Block :=
  [.declaration (.class { name := "A" } []),
    .declaration (.method { name := "A" } { name := "m" } [{ name := "x" }]
      [.conditional (.call (.identifier { name := "print" }) [.assign target (.string "b")])
        [.return (.identifier { name := "x" })] none]),
    .expression (.identifier { name := "A" })]

def repeatedHistory (b : Block) : List Action :=
  b.map .add ++ .generate :: (b.map .add ++ [.generate])

theorem statements_repeatedHistory (b : Block) :
    (repeatedHistory b).flatMap Action.statements = b ++ b := by
  have hadd : (b.map Action.add).flatMap Action.statements = b := by
    rw [List.flatMap_map]
    exact List.flatMap_singleton' b
  rw [repeatedHistory, List.flatMap_append, List.flatMap_cons, List.flatMap_append, hadd]
  exact congrArg (b ++ ·) (List.append_nil b)

theorem writable_guardedAssignment :
    (∃ e, ((withBuiltins Prelude.builtins).resolve
      (guardedAssignment (.string "x"))).2.2 = some e) ∧
    (({} : Generator).performAll? (repeatedHistory (guardedAssignment (.string "x")))).isNone ∧
    ∃ g, ({} : Generator).performAll? (repeatedHistory ((withBuiltins Prelude.builtins).resolve
      (guardedAssignment (.identifier { name := "x" }))).1) = some g := by
  have haccepted : ((withBuiltins Prelude.builtins).resolve
      (guardedAssignment (.identifier { name := "x" }))).2.2 = none := by
    decide +kernel
  refine ⟨?_, by decide +kernel, ?_⟩
  · apply (writable_of_resolve (.withBuiltins _) _).1
    intro hassignable
    obtain ⟨x, hx⟩ := hassignable (.string "x") (.string "b") (.tail _ (.tail _ (.head _)))
    cases hx
  · apply (writable_of_resolve (.withBuiltins _) _).2 haccepted
    rw [statements_repeatedHistory]
    have hsubset := subset_blockSubstatements ((withBuiltins Prelude.builtins).resolve
      (guardedAssignment (.identifier { name := "x" }))).1
    exact List.append_subset.2 ⟨hsubset, hsubset⟩

end Generator

end LiterateFun
