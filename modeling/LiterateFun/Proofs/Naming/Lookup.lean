import LiterateFun.Proofs.Naming.Lowering
import LiterateFun.Proofs.Scoping.Identity

/-!
This module contains the agreement of visible bindings with declarations that are found by their
texts. It is kept when a scope is entered, provided that the texts of the scope are apart.
-/

namespace LiterateFun

open Resolution Resolution.Session Region

/-- The identifiers belong to different bindings, and their texts tell their variables apart. -/
structure Discernible (ids : List Nat) (xs : List Identifier) : Prop where
  nodup : (xs.map Identifier.id).Nodup
  apart : ∀ x ∈ xs, ∀ y ∈ xs, x.spelling ids = y.spelling ids → x.variable ids = y.variable ids

namespace Discernible

variable {ids : List Nat} {xs ys : List Identifier}

theorem sublist (h : Discernible ids ys) (hsub : xs.Sublist ys) : Discernible ids xs :=
  ⟨h.nodup.sublist (hsub.map _), fun x hx y hy => h.apart x (hsub.subset hx) y (hsub.subset hy)⟩

theorem perm (h : Discernible ids ys) (hperm : xs.Perm ys) : Discernible ids xs :=
  ⟨(hperm.map _).nodup_iff.2 h.nodup,
    fun x hx y hy => h.apart x (hperm.mem_iff.1 hx) y (hperm.mem_iff.1 hy)⟩

theorem nodup_spelling (h : Discernible ids xs)
    (hplain : xs.Pairwise fun x y =>
      (x.variable ids).id = none → (y.variable ids).id = none → x.name ≠ y.name) :
    (xs.map (Identifier.spelling ids)).Nodup := by
  have hids : xs.Pairwise fun x y => x.id ≠ y.id := List.pairwise_map.1 h.nodup
  refine List.pairwise_map.2 ((hids.and hplain).imp_of_mem fun {x y} hx hy hxy heq => ?_)
  have hvariable := h.apart x hx y hy heq
  cases hid : (y.variable ids).id with
  | none =>
    apply hxy.2 (by rw [hvariable, hid]) hid
    exact congrArg Script.Variable.name hvariable
  | some id =>
    have hmem := Option.filter_eq_some_iff.1 hid
    exact hxy.1 (x.id_eq_of_variable_eq (by simpa using hmem.2) hmem.1 hvariable)

end Discernible

def Agree (globals : List (String × Nat)) (ids : List Nat) (layers : List Layer)
    (scopes : List (List Identifier)) : Prop :=
  ∀ x : Identifier, ¬IsQualified x.name → HasVisibleId globals x layers →
    ∃ y, find? (Identifier.spelling ids) scopes (x.spelling ids) = some y ∧ y.name = x.name ∧
      y.id = x.id

/-- The layer defines what the scope declares, where variables can still be missing. -/
structure Matches (ids : List Nat) (l : Layer) (declared : List Identifier) : Prop where
  mem : ∀ name y, ¬IsQualified name → l.definition? name = some y → y ∈ declared ∧ y.name = name
  known : ∀ y ∈ declared, (y.variable ids).id = none → (l.definition? y.name).isSome

theorem eq_of_find?_spelling {ids : List Nat} {declared : List Identifier}
    (hnodup : (declared.map (Identifier.spelling ids)).Nodup) {y : Identifier} (hy : y ∈ declared) :
    declared.find? (fun z => z.spelling ids = y.spelling ids) = some y := by
  obtain ⟨z, hz⟩ := Option.isSome_iff_exists.1
    (List.find?_isSome.2 ⟨y, hy, decide_eq_true rfl⟩ :
      (declared.find? fun z => z.spelling ids = y.spelling ids).isSome)
  rw [hz, List.inj_on_of_nodup_map hnodup (List.mem_of_find?_eq_some hz) hy (text_eq_of_find? hz)]

theorem mem_flatten_of_find? {α : Type} {text : α → String} {scopes : List (List α)} {t : String}
    {a : α} (h : find? text scopes t = some a) : a ∈ scopes.flatten ∧ text a = t := by
  obtain ⟨declared, hdeclared, ha⟩ := List.exists_of_findSome?_eq_some h
  exact ⟨List.mem_flatten.2 ⟨declared, hdeclared, List.mem_of_find?_eq_some ha⟩,
    text_eq_of_find? ha⟩

section

variable {globals : List (String × Nat)} {ids : List Nat} {layers : List Layer} {l : Layer}
  {declared : List Identifier} {scopes : List (List Identifier)}

theorem Agree.enter (h : Agree globals ids layers scopes) (hl : Matches ids l declared)
    (hnodup : (declared.map (Identifier.spelling ids)).Nodup)
    (hdiscernible : Discernible ids (declared ++ scopes.flatten)) :
    Agree globals ids (l :: layers) (declared :: scopes) := by
  intro x hx hvisible
  rw [HasVisibleId, visible?] at hvisible
  rw [find?, List.findSome?_cons]
  cases hdefinition : l.definition? x.name with
  | some y =>
    -- The layer has a definition of the name, so its declaration is in the new scope.
    rw [hdefinition] at hvisible
    have hid : y.id = x.id := Option.some.inj hvisible
    obtain ⟨hy, hname⟩ := hl.mem _ y hx hdefinition
    have hspelling : x.spelling ids = y.spelling ids :=
      congrArg Script.Variable.text (x.variable_congr hname.symm hid.symm ids)
    rw [hspelling, eq_of_find?_spelling hnodup hy]
    exact ⟨y, rfl, hname, hid⟩
  | none =>
    rw [hdefinition] at hvisible
    obtain ⟨y, hfind, hname, hid⟩ := h x hx hvisible
    obtain ⟨hy, hspelling⟩ := mem_flatten_of_find? hfind
    -- A declaration of the scope with the same text would be known in the layer by its name.
    have hnone : declared.find? (fun z => z.spelling ids = x.spelling ids) = none := by
      rw [List.find?_eq_none]
      intro z hz hzx
      have hvariable :=
        hdiscernible.apart z (List.mem_append_left _ hz) y (List.mem_append_right _ hy)
        ((of_decide_eq_true hzx).trans hspelling.symm)
      cases hzid : (z.variable ids).id with
      | none =>
        -- Then `y` has the name of `z`, which the layer would define.
        have hknown := hl.known z hz hzid
        have hzname : z.name = y.name := congrArg Script.Variable.name hvariable
        rw [hzname, hname, hdefinition] at hknown
        cases hknown
      | some id =>
        -- Then `y` and `z` belong to one binding, which is declared in one scope only.
        have hmem := Option.filter_eq_some_iff.1 hzid
        have hyz := y.id_eq_of_variable_eq (by simpa using hmem.2) hmem.1 hvariable.symm
        have hdisjoint := hdiscernible.nodup
        rw [List.map_append, List.nodup_append] at hdisjoint
        exact hdisjoint.2.2 _ (List.mem_map_of_mem hz) _ (List.mem_map_of_mem hy) hyz.symm
    rw [hnone]
    exact ⟨y, hfind, hname, hid⟩

theorem Agree.merge {inner outer : List Identifier}
    (h : Agree globals ids layers (inner :: outer :: scopes))
    (hnodup : ((outer ++ inner).map (Identifier.spelling ids)).Nodup) :
    Agree globals ids layers ((outer ++ inner) :: scopes) := by
  intro x hx hvisible
  obtain ⟨y, hfind, hsame⟩ := h x hx hvisible
  refine ⟨y, ?_, hsame⟩
  rw [find?, List.findSome?_cons, List.findSome?_cons] at hfind
  rw [find?, List.findSome?_cons, List.find?_append]
  cases hinner : inner.find? fun z => z.spelling ids = x.spelling ids with
  | none =>
    rw [hinner] at hfind
    rw [Option.or_none]
    exact hfind
  | some z =>
    rw [hinner] at hfind
    cases hfind
    have houter : outer.find? (fun z => z.spelling ids = x.spelling ids) = none := by
      rw [List.find?_eq_none]
      intro w hw hwx
      rw [List.map_append, List.nodup_append] at hnodup
      apply hnodup.2.2 _ (List.mem_map_of_mem hw) _
        (List.mem_map_of_mem (List.mem_of_find?_eq_some hinner))
      rw [of_decide_eq_true hwx, text_eq_of_find? hinner]
    rw [houter]
    rfl

theorem Agree.empty (h : Agree globals ids layers scopes) :
    Agree globals ids layers ([] :: scopes) :=
  h

end

theorem lookup_isSome_of_mem {α : Type} {entries : List (String × α)} {name : String} {a : α}
    (h : (name, a) ∈ entries) : (entries.lookup name).isSome := by
  rw [Option.isSome_iff_ne_none, ne_eq, List.lookup_eq_none_iff]
  intro hnone
  simpa using hnone _ h

theorem Layer.definition?_isSome {l : Layer} {name : String}
    (h : (l.declared.lookup name).isSome) : (l.definition? name).isSome := by
  unfold Layer.definition?
  cases l.before.reverse.findSome? (Item.bound? name) with
  | none => exact h
  | some x => rfl

theorem matches_parameters (ids : List Nat) (parameters : List Identifier) :
    Matches ids ⟨parametersDeclared parameters, []⟩ parameters := by
  constructor
  · intro name y _ h
    rcases Layer.bind_or_mem h with ⟨hbind, -⟩ | hmem
    · cases hbind
    · obtain ⟨x, hx, heq⟩ := List.mem_map.1 hmem
      cases heq
      exact ⟨hx, rfl⟩
  · intro y hy _
    apply Layer.definition?_isSome
    exact lookup_isSome_of_mem (List.mem_map.2 ⟨y, hy, rfl⟩)

theorem Expr.mem_targets {e : Expr} {x : Identifier} : x ∈ e.targets ↔ .bind x ∈ e.items := by
  rw [Expr.targets, List.mem_filterMap]
  constructor
  · rintro ⟨i, hi, heq⟩
    cases i with
    | bind y =>
      cases heq
      exact hi
    | _ => cases heq
  · intro h
    exact ⟨_, h, rfl⟩

mutual

theorem Expr.variable_mem_roles (e : Expr) {x : Identifier} (h : .bind x ∈ e.items) :
    (.variable, x) ∈ e.roles := by
  match e with
  | .string value => cases h
  | .number value => cases h
  | .identifier y =>
    cases h with
    | tail _ h => cases h
  | .binary op left right =>
    rw [Expr.items, List.mem_append] at h
    rw [Expr.roles, List.mem_append]
    exact h.imp left.variable_mem_roles right.variable_mem_roles
  | .call callee arguments =>
    rw [Expr.items, List.mem_append] at h
    rw [Expr.roles, List.mem_append]
    exact h.imp callee.variable_mem_roles (Expr.variable_mem_rolesList arguments)
  | .assign target value =>
    rw [Expr.items, List.mem_append] at h
    rw [Expr.roles, List.mem_append]
    exact h.imp target.variable_mem_roles value.variable_mem_roles
  | .declare y value =>
    rw [Expr.items, List.mem_append, List.mem_singleton, Item.bind.injEq] at h
    rw [Expr.roles, List.mem_cons]
    rcases h with h | rfl
    · exact .inr (value.variable_mem_roles h)
    · exact .inl rfl

theorem Expr.variable_mem_rolesList (es : List Expr) {x : Identifier}
    (h : .bind x ∈ Expr.itemsList es) : (.variable, x) ∈ Expr.rolesList es := by
  match es with
  | [] => cases h
  | e :: es =>
    rw [Expr.itemsList, List.mem_append] at h
    rw [Expr.rolesList, List.mem_append]
    exact h.imp e.variable_mem_roles (Expr.variable_mem_rolesList es)

end

theorem Statement.mem_targets {st : Statement} {x : Identifier} :
    x ∈ st.targets ↔ .bind x ∈ st.items := by
  cases st with
  | expression value => exact Expr.mem_targets
  | «return» value => exact Expr.mem_targets
  | conditional condition consequent alternative =>
    cases alternative <;> simp [Statement.targets, Statement.items]
  | declaration d => cases d <;> simp [Statement.targets, Statement.items, Declaration.items]

theorem mem_flatMap_targets {b : List Statement} {x : Identifier} :
    x ∈ b.flatMap Statement.targets ↔ .bind x ∈ blockItems b := by
  induction b with
  | nil => simp [blockItems]
  | cons st b ih =>
    rw [List.flatMap_cons, List.mem_append, ih, Statement.mem_targets, blockItems, List.mem_append]

theorem variable_mem_blockRoles {b : List Statement} {x : Identifier}
    (h : x ∈ b.flatMap Statement.targets) : (.variable, x) ∈ blockRoles b := by
  induction b with
  | nil => cases h
  | cons st b ih =>
    rw [List.flatMap_cons, List.mem_append] at h
    rw [blockRoles, List.mem_append]
    refine h.imp (fun hx => ?_) ih
    cases st with
    | expression value => exact value.variable_mem_roles (Expr.mem_targets.1 hx)
    | «return» value => exact value.variable_mem_roles (Expr.mem_targets.1 hx)
    | _ => cases hx

theorem mem_hoisted_of_scopeNames {b : Block} {x : Identifier}
    (hx : x ∈ b.flatMap Statement.scopeNames) : (x.name, x) ∈ b.hoisted := by
  induction b with
  | nil => cases hx
  | cons st b ih =>
    rw [List.flatMap_cons, List.mem_append] at hx
    rw [Block.hoisted_cons_eq, List.mem_append]
    refine hx.imp (fun hx => ?_) ih
    cases st with
    | declaration d =>
      cases d with
      | method owner name parameters body => cases hx
      | _ =>
        cases List.mem_singleton.1 hx
        exact List.mem_cons_self
    | _ => cases hx

theorem mem_scopeNames_of_hoisted {b : Block} {name : String} {x : Identifier}
    (hname : ¬IsQualified name) (hx : (name, x) ∈ b.hoisted) :
    x ∈ b.flatMap Statement.scopeNames ∧ x.name = name := by
  induction b with
  | nil => cases hx
  | cons st b ih =>
    rw [Block.hoisted_cons_eq, List.mem_append] at hx
    rw [List.flatMap_cons, List.mem_append]
    rcases hx with hx | hx
    · cases st with
      | declaration d =>
        cases d with
        | method owner name' parameters body =>
          cases List.mem_singleton.1 hx
          exact absurd (isQualified_append _ _) hname
        | _ =>
          cases List.mem_singleton.1 hx
          exact ⟨.inl List.mem_cons_self, rfl⟩
      | _ => cases hx
    · exact (ih hx).imp_left .inr

section

variable {globals : List (String × Nat)} {ids : List Nat} {layers : List Layer}
  {scopes : List (List Identifier)} {names : List Identifier} {b : Block} {es : List Expr}
  {declared : List Nat}

theorem Spellable.id_variable_ne_none {roles : List (Role × Identifier)}
    (h : Spellable ids roles es declared) {x : Identifier} (hx : (.variable, x) ∈ roles) :
    (x.variable ids).id ≠ none := by
  obtain ⟨id, hid, heq⟩ := h.target x hx
  rw [Identifier.variable, heq, Option.filter_some_pos (by simpa using hid)]
  exact Option.some_ne_none id

theorem matches_block (h : Spellable ids (blockRoles b) es declared) {before : List Item}
    (hbefore : before <+: blockItems b) : Matches ids ⟨b.hoisted, before⟩ b.declared := by
  constructor
  · intro name y hname hy
    rw [Block.declared, List.mem_append]
    rcases Layer.bind_or_mem hy with ⟨hbind, heq⟩ | hmem
    · exact ⟨.inr (mem_flatMap_targets.2 (hbefore.subset hbind)), heq⟩
    · exact (mem_scopeNames_of_hoisted hname hmem).imp_left .inl
  · intro y hy hplain
    rw [Block.declared, List.mem_append] at hy
    cases hy with
    | inl hy =>
      apply Layer.definition?_isSome
      exact lookup_isSome_of_mem (mem_hoisted_of_scopeNames hy)
    | inr hy => exact absurd hplain (h.id_variable_ne_none (variable_mem_blockRoles hy))

theorem Block.Regular.nodup_spelling (hregular : b.Regular names)
    (h : Spellable ids (blockRoles b) es declared)
    (hdiscernible : Discernible ids (names ++ b.declared)) :
    ((names ++ b.declared).map (Identifier.spelling ids)).Nodup := by
  have htargets : ∀ x ∈ b.flatMap Statement.targets, (x.variable ids).id ≠ none :=
    fun x hx => h.id_variable_ne_none (variable_mem_blockRoles hx)
  apply hdiscernible.nodup_spelling
  rw [Block.declared, ← List.append_assoc, List.pairwise_append]
  refine ⟨?_, ?_, ?_⟩
  · exact (List.pairwise_map.1 hregular.nodup).imp fun hne _ _ => hne
  · exact List.pairwise_of_forall_mem_list fun x hx y _ hplain => absurd hplain (htargets x hx)
  · intro x _ y hy _ hplain
    exact absurd hplain (htargets y hy)

theorem Agree.block (hagree : Agree globals ids layers (names :: scopes))
    (hregular : b.Regular names) (h : Spellable ids (blockRoles b) es declared)
    (hdiscernible : Discernible ids ((names ++ b.declared) ++ scopes.flatten)) {before : List Item}
    (hbefore : before <+: blockItems b) :
    Agree globals ids (⟨b.hoisted, before⟩ :: layers) ((names ++ b.declared) :: scopes) := by
  have hnodup := hregular.nodup_spelling h (hdiscernible.sublist (List.sublist_append_left _ _))
  refine (hagree.enter (matches_block h hbefore) ?_ ?_).merge hnodup
  · exact hnodup.sublist ((List.sublist_append_right _ _).map _)
  · refine hdiscernible.perm ?_
    rw [List.flatten_cons, ← List.append_assoc]
    exact List.perm_append_comm.append_right _

end

end LiterateFun
