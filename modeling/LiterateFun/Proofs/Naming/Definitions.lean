import LiterateFun.Proofs.Naming.Finding
import LiterateFun.Proofs.Scoping.WriteOnce

/-!
This module contains the definitions of resolved programs: the scopes of a program declare all of
them but the methods, they belong to different bindings, and no scope declares a name twice.
-/

namespace LiterateFun

open Resolution Region

/-- Whether an identifier is declared in a scope. Methods are declared in their classes only. -/
def Role.isScoped : Role → Bool
  | .declaration => true
  | .method _ => false
  | .parameter => true
  | .variable => true
  | .reference => false

def scopedIn (roles : List (Role × Identifier)) : List Identifier :=
  (roles.filter fun p => p.1.isScoped).map Prod.snd

theorem scopedIn_append (roles₁ roles₂ : List (Role × Identifier)) :
    scopedIn (roles₁ ++ roles₂) = scopedIn roles₁ ++ scopedIn roles₂ := by
  rw [scopedIn, List.filter_append, List.map_append, scopedIn, scopedIn]

theorem scopedIn_parameterRoles (parameters : List Identifier) :
    scopedIn (parameterRoles parameters) = parameters := by
  induction parameters with
  | nil => rfl
  | cons x parameters ih => exact congrArg (x :: ·) ih

mutual

theorem Expr.targets_perm (e : Expr) : e.targets.Perm (scopedIn e.roles) := by
  match e with
  | .string value => exact .nil
  | .number value => exact .nil
  | .identifier x => exact .nil
  | .binary op left right =>
    rw [Expr.targets, Expr.items, List.filterMap_append, Expr.roles, scopedIn_append]
    exact left.targets_perm.append right.targets_perm
  | .call callee arguments =>
    rw [Expr.targets, Expr.items, List.filterMap_append, Expr.roles, scopedIn_append]
    exact callee.targets_perm.append (Expr.targets_perm_list arguments)
  | .assign target value =>
    rw [Expr.targets, Expr.items, List.filterMap_append, Expr.roles, scopedIn_append]
    exact target.targets_perm.append value.targets_perm
  | .declare x value =>
    rw [Expr.targets, Expr.items, List.filterMap_append]
    exact List.perm_append_comm.trans (value.targets_perm.cons x)

theorem Expr.targets_perm_list (es : List Expr) :
    ((Expr.itemsList es).filterMap Item.target?).Perm (scopedIn (Expr.rolesList es)) := by
  match es with
  | [] => exact .nil
  | e :: es =>
    rw [Expr.itemsList, List.filterMap_append, Expr.rolesList, scopedIn_append]
    exact e.targets_perm.append (Expr.targets_perm_list es)

end

theorem allDeclaredIn_singleton (r : Region Identifier) : allDeclaredIn [r] = r.allDeclared := by
  rw [allDeclaredIn, allDeclaredIn, List.append_nil]

section

variable {b : Block}
  (hb : (b.declared ++ allDeclaredIn (blockRegions b)).Perm (scopedIn (blockRoles b)))

include hb

theorem Block.allDeclared_perm (names : List Identifier) :
    (b.region names).allDeclared.Perm (names ++ scopedIn (blockRoles b)) := by
  rw [Block.region, Block.scopeOf, allDeclared, List.append_assoc]
  exact hb.append_left names

theorem Block.allDeclared_callable_perm (parameters : List Identifier) :
    (b.region parameters).allDeclared.Perm
      (scopedIn (parameterRoles parameters ++ blockRoles b)) := by
  rw [scopedIn_append, scopedIn_parameterRoles]
  exact Block.allDeclared_perm hb parameters

end

mutual

theorem Statement.allDeclared_perm (st : Statement) :
    (st.scopeNames ++ st.targets ++ allDeclaredIn st.regions).Perm (scopedIn st.roles) := by
  match st with
  | .expression value =>
    rw [Statement.regions, allDeclaredIn, List.append_nil]
    exact value.targets_perm
  | .return value =>
    rw [Statement.regions, allDeclaredIn, List.append_nil]
    exact value.targets_perm
  | .declaration d =>
    rw [Statement.regions, allDeclaredIn_singleton, Statement.targets, List.append_nil]
    · exact d.allDeclared_perm
    · nofun
    · nofun
  | .conditional condition consequent none =>
    rw [Statement.regions, allDeclaredIn_singleton, allDeclared, allDeclaredIn_singleton,
      Statement.roles, scopedIn_append]
    exact condition.targets_perm.append (Block.allDeclared_perm (blockDeclared_perm consequent) [])
  | .conditional condition consequent (some alternative) =>
    rw [Statement.regions, allDeclaredIn_singleton, allDeclared, allDeclaredIn,
      allDeclaredIn_singleton, Statement.roles, scopedIn_append, scopedIn_append,
      List.append_assoc (scopedIn condition.roles)]
    exact condition.targets_perm.append
      ((Block.allDeclared_perm (blockDeclared_perm consequent) []).append
        (Block.allDeclared_perm (blockDeclared_perm alternative) []))

theorem Declaration.allDeclared_perm (d : Declaration) :
    (d.scopeNames ++ d.region.allDeclared).Perm (scopedIn d.roles) := by
  match d with
  | .class name body =>
    exact (Block.allDeclared_perm (blockDeclared_perm body) []).cons name
  | .function name parameters body =>
    exact (Block.allDeclared_callable_perm (blockDeclared_perm body) parameters).cons name
  | .method owner name parameters body =>
    exact Block.allDeclared_callable_perm (blockDeclared_perm body) parameters

theorem blockDeclared_perm (b : List Statement) :
    (Block.declared b ++ allDeclaredIn (blockRegions b)).Perm (scopedIn (blockRoles b)) := by
  match b with
  | [] => exact .nil
  | st :: b =>
    rw [blockRoles, scopedIn_append]
    refine List.Perm.trans ?_ (st.allDeclared_perm.append (blockDeclared_perm b))
    rw [List.perm_iff_count]
    intro x
    simp only [Block.declared, blockRegions, allDeclaredIn_append, List.flatMap_cons,
      List.count_append]
    omega

end

def variableIds (roles : List (Role × Identifier)) : List Nat :=
  roles.filterMap fun p => if p.1 = .variable then p.2.id else none

theorem variableIds_append (roles₁ roles₂ : List (Role × Identifier)) :
    variableIds (roles₁ ++ roles₂) = variableIds roles₁ ++ variableIds roles₂ :=
  List.filterMap_append

theorem variableIds_parameterRoles (parameters : List Identifier) :
    variableIds (parameterRoles parameters) = [] := by
  induction parameters with
  | nil => rfl
  | cons x parameters ih => exact ih

theorem mem_variableIds {roles : List (Role × Identifier)} {id : Nat} :
    id ∈ variableIds roles ↔ ∃ x, (.variable, x) ∈ roles ∧ x.id = some id := by
  simp only [variableIds, List.mem_filterMap, Prod.exists, Option.ite_none_right_eq_some]
  constructor
  · rintro ⟨role, x, hx, rfl, hid⟩
    exact ⟨x, hx, hid⟩
  · rintro ⟨x, hx, hid⟩
    exact ⟨.variable, x, hx, rfl, hid⟩

mutual

theorem Expr.declaredIds_eq (e : Expr) (h : Assignable e.subexpressions) :
    e.declaredIds = variableIds e.roles := by
  match e with
  | .string value => rfl
  | .number value => rfl
  | .identifier x => rfl
  | .binary op left right =>
    have hsplit := assignable_append.1 h.of_cons
    rw [Expr.declaredIds, Expr.roles, variableIds_append, left.declaredIds_eq hsplit.1,
      right.declaredIds_eq hsplit.2]
  | .call callee arguments =>
    have hsplit := assignable_append.1 h.of_cons
    rw [Expr.declaredIds, Expr.roles, variableIds_append, callee.declaredIds_eq hsplit.1,
      Expr.declaredIdsList_eq arguments hsplit.2]
  | .assign target value =>
    obtain ⟨x, rfl⟩ := h target value List.mem_cons_self
    have hsplit := assignable_append.1 h.of_cons
    rw [Expr.declaredIds, value.declaredIds_eq hsplit.2]
    rfl
  | .declare x value =>
    rw [Expr.declaredIds, value.declaredIds_eq h.of_cons, Expr.roles]
    cases hid : x.id <;> simp [variableIds, hid]

theorem Expr.declaredIdsList_eq (es : List Expr) (h : Assignable (Expr.subexpressionsList es)) :
    Expr.declaredIdsList es = variableIds (Expr.rolesList es) := by
  match es with
  | [] => rfl
  | e :: es =>
    have hsplit := assignable_append.1 h
    rw [Expr.declaredIdsList, Expr.rolesList, variableIds_append, e.declaredIds_eq hsplit.1,
      Expr.declaredIdsList_eq es hsplit.2]

end

mutual

theorem Statement.declaredIds_eq (st : Statement) (h : Assignable st.subexpressions) :
    st.declaredIds = variableIds st.roles := by
  match st with
  | .expression value => exact value.declaredIds_eq h
  | .return value => exact value.declaredIds_eq h
  | .declaration d => exact d.declaredIds_eq h
  | .conditional condition consequent none =>
    have hsplit := assignable_append.1 h
    rw [Statement.declaredIds, Statement.roles, variableIds_append,
      condition.declaredIds_eq hsplit.1, blockDeclaredIds_eq consequent hsplit.2]
  | .conditional condition consequent (some alternative) =>
    rw [Statement.subexpressions, assignable_append, assignable_append] at h
    rw [Statement.declaredIds, Statement.roles, variableIds_append, variableIds_append,
      condition.declaredIds_eq h.1.1, blockDeclaredIds_eq consequent h.1.2,
      blockDeclaredIds_eq alternative h.2]

theorem Declaration.declaredIds_eq (d : Declaration) (h : Assignable d.subexpressions) :
    d.declaredIds = variableIds d.roles := by
  match d with
  | .class name body => exact blockDeclaredIds_eq body h
  | .function name parameters body =>
    have hroles : variableIds (parameterRoles parameters ++ blockRoles body) =
        variableIds (blockRoles body) := by
      rw [variableIds_append, variableIds_parameterRoles, List.nil_append]
    exact (blockDeclaredIds_eq body h).trans hroles.symm
  | .method owner name parameters body =>
    have hroles : variableIds (parameterRoles parameters ++ blockRoles body) =
        variableIds (blockRoles body) := by
      rw [variableIds_append, variableIds_parameterRoles, List.nil_append]
    exact (blockDeclaredIds_eq body h).trans hroles.symm

theorem blockDeclaredIds_eq (b : List Statement) (h : Assignable (blockSubexpressions b)) :
    blockDeclaredIds b = variableIds (blockRoles b) := by
  match b with
  | [] => rfl
  | st :: b =>
    have hsplit := assignable_append.1 h
    rw [blockDeclaredIds, blockRoles, variableIds_append, st.declaredIds_eq hsplit.1,
      blockDeclaredIds_eq b hsplit.2]

end

mutual

theorem Item.filterMap_definition?_marks (i : Item) :
    i.marks.filterMap Mark.definition? = i.definitions := by
  match i with
  | .use x => rfl
  | .bind x => rfl
  | .scope declared items =>
    have hdeclared : (declaredMarks declared).filterMap Mark.definition? = declared := by
      rw [declaredMarks, List.filterMap_map]
      exact List.filterMap_some
    rw [Item.marks, List.filterMap_append, hdeclared, filterMap_definition?_marksOf items,
      Item.definitions]

theorem filterMap_definition?_marksOf (items : List Item) :
    (marksOf items).filterMap Mark.definition? = definitionsOf items := by
  match items with
  | [] => rfl
  | i :: items =>
    rw [marksOf, List.filterMap_append, i.filterMap_definition?_marks,
      filterMap_definition?_marksOf items, definitionsOf]

end

def definedIn (roles : List (Role × Identifier)) : List (Role × Identifier) :=
  roles.filter fun p => p.1 ≠ .reference

theorem map_snd_definedIn_perm (b : Block) :
    ((definedIn (blockRoles b)).map Prod.snd).Perm (b.tree.definitions.map Prod.snd) := by
  rw [definedIn, ← map_snd_filterMap_definition?, ← Item.filterMap_definition?_marks]
  exact ((roleMarks_blockRoles_perm b).filterMap _).map _

/-- The definitions of a program belong to different bindings, none of which is a global one. -/
structure Identified (globals : List (String × Nat)) (roles : List (Role × Identifier)) : Prop where
  bound : ∀ p ∈ definedIn roles, p.2.id ≠ none
  nodup : (globals.map (fun p => some p.2) ++ (definedIn roles).map fun p => p.2.id).Nodup

theorem Resolution.Session.identified_resolve {s : Session} {b : Block} (hs : s.Reachable)
    (h : (s.resolve b).2.2 = none) : Identified s.globals (blockRoles (s.resolve b).1) := by
  have hwell := wellBound_resolve hs h
  have hperm := map_snd_definedIn_perm (s.resolve b).1
  constructor
  · intro p hp
    have hmem := hperm.mem_iff.1 (List.mem_map_of_mem hp)
    obtain ⟨q, hq, heq⟩ := List.mem_map.1 hmem
    rw [← heq]
    apply hwell.bound
    rw [definitionsOf, definitionsOf, List.append_nil]
    exact hq
  · have hnodup := hwell.nodup
    rw [introduced, List.flatMap_singleton, Layer.definitions_extend, List.map_append] at hnodup
    simp only [Layer.definitions, definitionsOf, List.append_nil, List.nil_append, List.map_map,
      Function.comp_def] at hnodup
    have hids := hperm.map Identifier.id
    rw [List.map_map, List.map_map] at hids
    exact ((hids.append_left _).nodup_iff).2 hnodup

namespace Identified

variable {globals : List (String × Nat)} {roles : List (Role × Identifier)}

theorem eq_of_id_eq (h : Identified globals roles) {p q : Role × Identifier} (hp : p ∈ roles)
    (hq : q ∈ roles) (hprole : p.1 ≠ .reference) (hqrole : q.1 ≠ .reference)
    (hid : p.2.id = q.2.id) : p = q := by
  refine List.inj_on_of_nodup_map (List.nodup_append.1 h.nodup).2.1 ?_ ?_ hid
  · exact List.mem_filter.2 ⟨hp, decide_eq_true hprole⟩
  · exact List.mem_filter.2 ⟨hq, decide_eq_true hqrole⟩

theorem exists_id (h : Identified globals roles) {role : Role} {x : Identifier}
    (hx : (role, x) ∈ roles) (hrole : role ≠ .reference) : ∃ id, x.id = some id :=
  Option.ne_none_iff_exists'.1 (h.bound _ (List.mem_filter.2 ⟨hx, decide_eq_true hrole⟩))

theorem id_notMem_globals (h : Identified globals roles) {role : Role} {x : Identifier}
    (hx : (role, x) ∈ roles) (hrole : role ≠ .reference) {p : String × Nat} (hp : p ∈ globals) :
    x.id ≠ some p.2 := by
  have hmem : (role, x) ∈ definedIn roles := List.mem_filter.2 ⟨hx, decide_eq_true hrole⟩
  exact ((List.nodup_append.1 h.nodup).2.2 _ (List.mem_map.2 ⟨p, hp, rfl⟩) _
    (List.mem_map.2 ⟨(role, x), hmem, rfl⟩)).symm

theorem nodup_variableIds (h : Identified globals roles) : (variableIds roles).Nodup := by
  have hsublist : ∀ roles : List (Role × Identifier),
      ((variableIds roles).map some).Sublist ((definedIn roles).map fun p => p.2.id) := by
    intro roles
    induction roles with
    | nil => exact .slnil
    | cons p roles ih =>
      obtain ⟨role, x⟩ := p
      cases role with
      | reference => exact ih
      | «variable» =>
        cases hid : x.id with
        | none => simpa [variableIds, definedIn, hid] using ih.cons none
        | some id => simpa [variableIds, definedIn, hid] using ih
      | _ => exact ih.cons x.id
  have hnodup := (List.nodup_append.1 h.nodup).2.1.sublist (hsublist roles)
  exact hnodup.of_map

theorem id_variable_eq_none (h : Identified globals roles) {ids : List Nat}
    (hids : ∀ id ∈ ids, id ∈ variableIds roles) {role : Role} {x : Identifier}
    (hx : (role, x) ∈ roles) (hrole : role ≠ .reference) (hvariable : role ≠ .variable) :
    (x.variable ids).id = none := by
  rw [Identifier.variable, Option.filter_eq_none_iff]
  intro id hid hmem
  obtain ⟨y, hy, hyid⟩ := mem_variableIds.1 (hids id (by simpa using hmem))
  have heq := h.eq_of_id_eq hx hy hrole (by simp) (hid.trans hyid.symm)
  exact hvariable (congrArg Prod.fst heq)

theorem spellable (h : Identified globals roles) {ids : List Nat} {es : List Expr}
    (hids : ∀ id, id ∈ ids ↔ id ∈ variableIds roles) (hes : Assignable es) :
    Spellable ids roles es (variableIds roles) where
  assignable := hes
  nodup := h.nodup_variableIds
  target x hx := by
    obtain ⟨id, hid⟩ := h.exists_id hx (by simp)
    exact ⟨id, (hids id).2 (mem_variableIds.2 ⟨x, hx, hid⟩), hid⟩
  name x hx := h.id_variable_eq_none (fun id => (hids id).1) hx (by simp) (by simp)
  parameter x hx := h.id_variable_eq_none (fun id => (hids id).1) hx (by simp) (by simp)

end Identified

mutual

theorem Statement.nodup_blocks (st : Statement) (h : Resolution.Distinct st.items)
    {p : List Identifier × Block} (hp : p ∈ st.blocks) :
    (p.1.map Identifier.name).Nodup ∧ (p.2.hoisted.map Prod.fst).Nodup := by
  match st with
  | .expression value => cases hp
  | .return value => cases hp
  | .declaration d => exact d.nodup_blocks h hp
  | .conditional condition consequent none =>
    rw [Statement.items, distinct_scope, distinct_append, distinct_scope] at h
    rcases List.mem_cons.1 hp with rfl | hp
    · exact ⟨List.nodup_nil, h.2.2.1⟩
    · exact nodup_blocksIn consequent h.2.2.2 hp
  | .conditional condition consequent (some alternative) =>
    rw [Statement.items, distinct_scope, distinct_append, distinct_append, distinct_scope,
      distinct_scope] at h
    rw [Statement.blocks, List.mem_append, List.mem_cons, List.mem_cons] at hp
    rcases hp with (rfl | hp) | rfl | hp
    · exact ⟨List.nodup_nil, h.2.1.2.1⟩
    · exact nodup_blocksIn consequent h.2.1.2.2 hp
    · exact ⟨List.nodup_nil, h.2.2.1⟩
    · exact nodup_blocksIn alternative h.2.2.2 hp

theorem Declaration.nodup_blocks (d : Declaration) (h : Resolution.Distinct d.items)
    {p : List Identifier × Block} (hp : p ∈ d.blocks) :
    (p.1.map Identifier.name).Nodup ∧ (p.2.hoisted.map Prod.fst).Nodup := by
  match d with
  | .class name body =>
    rw [Declaration.items, distinct_scope] at h
    rcases List.mem_cons.1 hp with rfl | hp
    · exact ⟨List.nodup_nil, h.1⟩
    · exact nodup_blocksIn body h.2 hp
  | .function name parameters body =>
    rw [Declaration.items, distinct_scope, distinct_scope, parametersDeclared, List.map_map] at h
    rcases List.mem_cons.1 hp with rfl | hp
    · exact ⟨h.1, h.2.1⟩
    · exact nodup_blocksIn body h.2.2 hp
  | .method owner name parameters body =>
    have hscope := (distinct_append.1 h : Resolution.Distinct [.use owner] ∧ Resolution.Distinct _)
    rw [distinct_scope, distinct_scope, parametersDeclared, List.map_map] at hscope
    rcases List.mem_cons.1 hp with rfl | hp
    · exact ⟨hscope.2.1, hscope.2.2.1⟩
    · exact nodup_blocksIn body hscope.2.2.2 hp

theorem nodup_blocksIn (b : List Statement) (h : Resolution.Distinct (blockItems b))
    {p : List Identifier × Block} (hp : p ∈ blocksIn b) :
    (p.1.map Identifier.name).Nodup ∧ (p.2.hoisted.map Prod.fst).Nodup := by
  match b with
  | [] => cases hp
  | st :: b =>
    rw [blockItems, distinct_append] at h
    rcases List.mem_append.1 hp with hp | hp
    · exact st.nodup_blocks h.1 hp
    · exact nodup_blocksIn b h.2 hp

end

section

variable (f : Identifier → Identifier)

mutual

theorem Item.distinct_relabel (i : Item) :
    Resolution.Distinct [i.relabel f] ↔ Resolution.Distinct [i] := by
  match i with
  | .use x =>
    have hnone : ∀ x, Resolution.Distinct [.use x] := by
      rintro x i hi declared h
      rw [List.mem_singleton.1 hi] at h
      cases h
    exact iff_of_true (hnone _) (hnone _)
  | .bind x =>
    have hnone : ∀ x, Resolution.Distinct [.bind x] := by
      rintro x i hi declared h
      rw [List.mem_singleton.1 hi] at h
      cases h
    exact iff_of_true (hnone _) (hnone _)
  | .scope declared items =>
    rw [Item.relabel, distinct_scope, distinct_scope, distinct_relabelItems items,
      map_fst_relabelDeclared]

theorem distinct_relabelItems (items : List Item) :
    Resolution.Distinct (relabelItems f items) ↔ Resolution.Distinct items := by
  match items with
  | [] => exact Iff.rfl
  | i :: items =>
    rw [relabelItems, ← List.singleton_append, distinct_append, i.distinct_relabel,
      distinct_relabelItems items, ← distinct_append, List.singleton_append]

end

end

theorem Resolution.Session.distinct_resolve {s : Session} {b : Block}
    (h : (s.resolve b).2.2 = none) : Resolution.Distinct [Block.tree (s.resolve b).1] := by
  obtain ⟨t, hbound⟩ := bound_resolve h
  rw [← distinct_relabelItems Identifier.forgetId, hbound.same, distinct_relabelItems]
  intro i hi declared hdeclared
  rw [List.mem_singleton.1 hi] at hdeclared
  exact (acceptable_of_resolve h).distinct declared hdeclared

theorem scopeNames_sublist_hoisted (b : Block) :
    ((b.flatMap Statement.scopeNames).map Identifier.name).Sublist (b.hoisted.map Prod.fst) := by
  induction b with
  | nil => exact .slnil
  | cons st b ih =>
    rw [List.flatMap_cons, List.map_append, Block.hoisted_cons_eq, List.map_append]
    refine List.Sublist.append ?_ ih
    cases st with
    | declaration d =>
      cases d with
      | method owner name parameters body => exact List.nil_sublist _
      | _ => exact .refl _
    | _ => exact .refl _

end LiterateFun
