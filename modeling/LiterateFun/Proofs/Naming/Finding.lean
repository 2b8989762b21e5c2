import LiterateFun.Proofs.Naming.Lookup

/-!
This module contains lookup by texts in the scopes of resolved programs: in every scope the texts of
the declarations are apart, and every use finds the declaration of its binding.
-/

namespace LiterateFun

open Resolution Resolution.Session Region

def Finds (ids : List Nat) (scopes : List (List Identifier)) (x : Identifier) : Prop :=
  ∃ y, find? (Identifier.spelling ids) scopes (x.spelling ids) = some y ∧ y.id = x.id

def FindsBindings (ids : List Nat) : List (Region Identifier) → Prop
  | [] => True
  | r :: around =>
    (r.declared.map (Identifier.spelling ids)).Nodup ∧
      ∀ x ∈ r.used, Finds ids ((r :: around).map Region.declared) x

def InScopeDiscernible (ids : List Nat) (way : List (Region Identifier)) : Prop :=
  Discernible ids (way.map Region.declared).flatten

/--
A part of a resolved program, given by its items, the roles of its identifiers and its scopes, at a
point that has layers and scopes around it.
-/
structure Located (globals : List (String × Nat)) (ids : List Nat) (outer : List Layer) (l : Layer)
    (around : List (Region Identifier)) (items : List Item) (roles : List (Role × Identifier))
    (regions : List (Region Identifier)) : Prop where
  visible : allItems (HasVisibleId globals) outer l items
  agree : ∀ before, before <+: items →
    Agree globals ids (l.extend before :: outer) (around.map Region.declared)
  unqualified : ∀ p ∈ roles, ¬IsQualified p.2.name
  discernible : InScopeDiscernible ids around ∧ allRegions (InScopeDiscernible ids) around regions

namespace Located

variable {globals : List (String × Nat)} {ids : List Nat} {outer : List Layer} {l : Layer}
  {around : List (Region Identifier)} {items items₁ items₂ : List Item}
  {roles roles₁ roles₂ : List (Role × Identifier)} {regions₁ regions₂ : List (Region Identifier)}

theorem left (h : Located globals ids outer l around (items₁ ++ items₂) (roles₁ ++ roles₂)
    (regions₁ ++ regions₂)) : Located globals ids outer l around items₁ roles₁ regions₁ where
  visible := (allItems_append.1 h.visible).1
  agree before hbefore := h.agree before (hbefore.trans (List.prefix_append _ _))
  unqualified := (List.forall_mem_append.1 h.unqualified).1
  discernible := ⟨h.discernible.1, (allRegions_append.1 h.discernible.2).1⟩

theorem right (h : Located globals ids outer l around (items₁ ++ items₂) (roles₁ ++ roles₂)
    (regions₁ ++ regions₂)) :
    Located globals ids outer (l.extend items₁) around items₂ roles₂ regions₂ where
  visible := (allItems_append.1 h.visible).2
  agree before hbefore := by
    rw [Layer.extend_extend]
    exact h.agree _ ((List.prefix_append_right_inj items₁).2 hbefore)
  unqualified := (List.forall_mem_append.1 h.unqualified).2
  discernible := ⟨h.discernible.1, (allRegions_append.1 h.discernible.2).2⟩

theorem agree_self (h : Located globals ids outer l around items roles regions₁) :
    Agree globals ids (l :: outer) (around.map Region.declared) := by
  have := h.agree [] List.nil_prefix
  rwa [Layer.extend_nil] at this

end Located

section

variable {globals : List (String × Nat)} {ids : List Nat}

theorem Expr.finds {outer : List Layer} {l : Layer} {around : List (Region Identifier)} {e : Expr}
    {regions : List (Region Identifier)}
    (h : Located globals ids outer l around e.items e.roles regions) {x : Identifier}
    (hx : x ∈ e.identifiers) : Finds ids (around.map Region.declared) x := by
  have hname : ¬IsQualified x.name := by
    rw [← Expr.map_snd_roles] at hx
    obtain ⟨p, hp, rfl⟩ := List.mem_map.1 hx
    exact h.unqualified p hp
  rw [e.mem_identifiers_iff] at hx
  cases hx with
  | inl huse =>
    obtain ⟨before, after, heq⟩ := List.append_of_mem huse
    have hvisible := h.visible
    rw [heq, allItems_append] at hvisible
    have hagree := h.agree before (by rw [heq]; exact List.prefix_append _ _)
    obtain ⟨y, hfind, -, hid⟩ := hagree x hname hvisible.2.1
    exact ⟨y, hfind, hid⟩
  | inr hbind =>
    -- Right after its `:=`, the variable is visible.
    obtain ⟨before, after, heq⟩ := List.append_of_mem hbind
    have hagree := h.agree (before ++ [.bind x]) ⟨after, by rw [heq, List.append_assoc]; rfl⟩
    have hvisible : HasVisibleId globals x (l.extend (before ++ [.bind x]) :: outer) := by
      have hbound : Item.bound? x.name (.bind x) = some x := if_pos rfl
      rw [HasVisibleId, visible?, Layer.definition?_extend, List.reverse_append,
        List.reverse_singleton, List.singleton_append, List.findSome?_cons, hbound]
      rfl
    obtain ⟨y, hfind, -, hid⟩ := hagree x hname hvisible
    exact ⟨y, hfind, hid⟩

theorem Spellable.id_variable_targets {e : Expr} {es : List Expr} {declared : List Nat}
    (h : Spellable ids e.roles es declared) {x : Identifier} (hx : x ∈ e.targets) :
    (x.variable ids).id ≠ none :=
  h.id_variable_ne_none (e.variable_mem_roles (Expr.mem_targets.1 hx))

theorem matches_condition {condition : Expr} {es : List Expr} {declared : List Nat}
    (h : Spellable ids condition.roles es declared) {before items : List Item}
    (hbefore : before <+: items) (hitems : ∀ x, .bind x ∈ items → .bind x ∈ condition.items) :
    Matches ids ⟨[], before⟩ condition.targets := by
  constructor
  · intro name y _ hy
    rcases Layer.bind_or_mem hy with ⟨hbind, heq⟩ | hmem
    · exact ⟨Expr.mem_targets.2 (hitems y (hbefore.subset hbind)), heq⟩
    · cases hmem
  · intro y hy hplain
    exact absurd hplain (h.id_variable_targets hy)

theorem Discernible.nodup_spelling_targets {condition : Expr} {es : List Expr} {declared : List Nat}
    (hdiscernible : Discernible ids condition.targets)
    (h : Spellable ids condition.roles es declared) :
    (condition.targets.map (Identifier.spelling ids)).Nodup := by
  apply hdiscernible.nodup_spelling
  exact List.pairwise_of_forall_mem_list fun x hx y _ hplain =>
    absurd hplain (h.id_variable_targets hx)

variable {layers : List Layer} {around : List (Region Identifier)} {names : List Identifier}
  {b : Block} {es : List Expr} {declared : List Nat}

theorem Located.condition {outer : List Layer} {l : Layer} {condition : Expr} {items : List Item}
    {roles : List (Role × Identifier)} {branches : List (Region Identifier)}
    (hlocated : Located globals ids outer l around [.scope [] items] roles
      [.mk condition.targets condition.identifiers branches])
    (h : Spellable ids condition.roles es declared)
    (hitems : ∀ x, .bind x ∈ items → .bind x ∈ condition.items) :
    (condition.targets.map (Identifier.spelling ids)).Nodup ∧
      Located globals ids (l :: outer) ⟨[], []⟩
        (.mk condition.targets condition.identifiers branches :: around) items roles branches := by
  have hinner := allRegions_singleton.1 hlocated.discernible.2
  have hnodup := (hinner.1.sublist (List.sublist_append_left _ _)).nodup_spelling_targets h
  refine ⟨hnodup, hlocated.visible.1, ?_, hlocated.unqualified, hinner⟩
  intro before hbefore
  exact hlocated.agree_self.enter (matches_condition h hbefore hitems) hnodup hinner.1

theorem located_block (hagree : Agree globals ids layers (names :: around.map Region.declared))
    (hvisible : allItems (HasVisibleId globals) layers ⟨b.hoisted, []⟩ (blockItems b))
    (hunqualified : ∀ p ∈ blockRoles b, ¬IsQualified p.2.name)
    (hdiscernible : (b.region names).All (InScopeDiscernible ids) around)
    (h : Spellable ids (blockRoles b) es declared) (hregular : b.Regular names) :
    Located globals ids layers ⟨b.hoisted, []⟩ (b.region names :: around) (blockItems b)
      (blockRoles b) (blockRegions b) := by
  constructor
  · exact hvisible
  · intro before hbefore
    exact hagree.block hregular h hdiscernible.1 hbefore
  · exact hunqualified
  · exact hdiscernible

theorem all_region (hlocated : Located globals ids layers ⟨b.hoisted, []⟩ (b.region names :: around)
      (blockItems b) (blockRoles b) (blockRegions b))
    (h : Spellable ids (blockRoles b) es declared) (hregular : b.Regular names)
    (hused : ∀ x ∈ b.flatMap Statement.used,
      Finds ids ((b.region names :: around).map Region.declared) x)
    (hregions : allRegions (FindsBindings ids) (b.region names :: around) (blockRegions b)) :
    (b.region names).All (FindsBindings ids) around := by
  refine ⟨⟨?_, hused⟩, hregions⟩
  apply hregular.nodup_spelling h
  exact hlocated.discernible.1.sublist (List.sublist_append_left _ _)

theorem Located.block {outer : List Layer} {l : Layer} {roles : List (Role × Identifier)}
    (hlocated : Located globals ids outer l around [.scope b.hoisted (blockItems b)] roles
      [b.region []])
    (hroles : blockRoles b ⊆ roles) (h : Spellable ids (blockRoles b) es declared)
    (hregular : b.Regular []) :
    Located globals ids (l :: outer) ⟨b.hoisted, []⟩ (b.region [] :: around) (blockItems b)
      (blockRoles b) (blockRegions b) :=
  located_block hlocated.agree_self.empty hlocated.visible.1
    (fun p hp => hlocated.unqualified p (hroles hp)) hlocated.discernible.2.1 h hregular

theorem Located.callable {outer : List Layer} {l : Layer} {roles : List (Role × Identifier)}
    (hlocated : Located globals ids outer l around
      [.scope (parametersDeclared names) [.scope b.hoisted (blockItems b)]] roles [b.region names])
    (hroles : blockRoles b ⊆ roles) (h : Spellable ids (blockRoles b) es declared)
    (hregular : b.Regular names) :
    Located globals ids (⟨parametersDeclared names, []⟩ :: l :: outer) ⟨b.hoisted, []⟩
      (b.region names :: around) (blockItems b) (blockRoles b) (blockRegions b) := by
  -- The parameters and the block are two layers, but one scope.
  have hdiscernible := hlocated.discernible.2.1.here
  have hnodup := hregular.nodup_spelling h (hdiscernible.sublist (List.sublist_append_left _ _))
  have hparameters := hlocated.agree_self.enter (matches_parameters ids names)
    (hnodup.sublist ((List.sublist_append_left _ _).map _))
    (hdiscernible.sublist ((List.sublist_append_left _ _).append_right _))
  exact located_block hparameters hlocated.visible.1.1
    (fun p hp => hlocated.unqualified p (hroles hp)) hlocated.discernible.2.1 h hregular

mutual

theorem Statement.finds (st : Statement) {outer : List Layer} {l : Layer}
    {around : List (Region Identifier)}
    (hlocated : Located globals ids outer l around st.items st.roles st.regions)
    (h : Spellable ids st.roles st.subexpressions st.declaredIds)
    (hregular : ∀ p ∈ st.blocks, Block.Regular p.1 p.2) :
    (∀ x ∈ st.used, Finds ids (around.map Region.declared) x) ∧
      allRegions (FindsBindings ids) around st.regions := by
  match st with
  | .expression value => exact ⟨fun x hx => Expr.finds hlocated hx, trivial⟩
  | .return value => exact ⟨fun x hx => Expr.finds hlocated hx, trivial⟩
  | .declaration d =>
    refine ⟨List.forall_mem_nil _, ?_⟩
    rw [Statement.regions, allRegions_singleton]
    exact d.finds hlocated h hregular
  | .conditional condition consequent none =>
    rw [Statement.blocks, List.forall_mem_cons] at hregular
    obtain ⟨hnodup, hinner⟩ := hlocated.condition h.left (by simp)
    -- The condition has no scopes of its own in front of those of the branches.
    have hsplit : Located globals ids (l :: outer) ⟨[], []⟩ _ _ _
      ([] ++ [Block.region [] consequent]) := hinner
    have hconsequent := hsplit.right.block (List.Subset.refl _) h.right hregular.1
    obtain ⟨hused, hregions⟩ := finds_statements consequent hconsequent h.right hregular.2
    refine ⟨List.forall_mem_nil _, ?_⟩
    rw [Statement.regions, allRegions_singleton]
    refine ⟨⟨hnodup, fun x hx => Expr.finds hsplit.left hx⟩, ?_⟩
    rw [allRegions_singleton]
    exact all_region hconsequent h.right hregular.1 hused hregions
  | .conditional condition consequent (some alternative) =>
    rw [Statement.blocks, List.forall_mem_append, List.forall_mem_cons, List.forall_mem_cons]
      at hregular
    obtain ⟨hnodup, hinner⟩ := hlocated.condition h.left.left (by simp)
    have hsplit : Located globals ids (l :: outer) ⟨[], []⟩ _ _ _
      ([] ++ [Block.region [] consequent] ++ [Block.region [] alternative]) := hinner
    have hconsequent := hsplit.left.right.block (List.Subset.refl _) h.left.right hregular.1.1
    have halternative := hsplit.right.block (List.Subset.refl _) h.right hregular.2.1
    obtain ⟨hused, hregions⟩ :=
      finds_statements consequent hconsequent h.left.right hregular.1.2
    obtain ⟨hused', hregions'⟩ := finds_statements alternative halternative h.right hregular.2.2
    refine ⟨List.forall_mem_nil _, ?_⟩
    rw [Statement.regions, allRegions_singleton]
    refine ⟨⟨hnodup, fun x hx => Expr.finds hsplit.left.left hx⟩, ?_⟩
    exact ⟨all_region hconsequent h.left.right hregular.1.1 hused hregions,
      all_region halternative h.right hregular.2.1 hused' hregions', trivial⟩

theorem Declaration.finds (d : Declaration) {outer : List Layer} {l : Layer}
    {around : List (Region Identifier)}
    (hlocated : Located globals ids outer l around d.items d.roles [d.region])
    (h : Spellable ids d.roles d.subexpressions d.declaredIds)
    (hregular : ∀ p ∈ d.blocks, Block.Regular p.1 p.2) :
    d.region.All (FindsBindings ids) around := by
  match d with
  | .class name body =>
    rw [Declaration.blocks, List.forall_mem_cons] at hregular
    have hbody : Spellable ids ([(.declaration, name)] ++ blockRoles body)
        (blockSubexpressions body) (blockDeclaredIds body) := h
    have hblock := hlocated.block (List.subset_cons_self _ _) hbody.body hregular.1
    obtain ⟨hused, hregions⟩ := finds_statements body hblock hbody.body hregular.2
    exact all_region hblock hbody.body hregular.1 hused hregions
  | .function name parameters body =>
    rw [Declaration.blocks, List.forall_mem_cons] at hregular
    have hblock := hlocated.callable (List.subset_append_right _ _) h.body hregular.1
    obtain ⟨hused, hregions⟩ := finds_statements body hblock h.body hregular.2
    exact all_region hblock h.body hregular.1 hused hregions
  | .method owner name parameters body =>
    rw [Declaration.blocks, List.forall_mem_cons] at hregular
    have hsplit : Located globals ids outer l around
        ([.use owner] ++ Declaration.items (.function name parameters body))
        ([(.reference, owner), (.method owner.name, name)] ++
          (parameterRoles parameters ++ blockRoles body))
        ([] ++ [Block.region parameters body]) := hlocated
    have hblock := hsplit.right.callable (List.subset_append_right _ _) h.body hregular.1
    obtain ⟨hused, hregions⟩ := finds_statements body hblock h.body hregular.2
    exact all_region hblock h.body hregular.1 hused hregions

theorem finds_statements (b : List Statement) {outer : List Layer} {l : Layer}
    {around : List (Region Identifier)}
    (hlocated : Located globals ids outer l around (blockItems b) (blockRoles b) (blockRegions b))
    (h : Spellable ids (blockRoles b) (blockSubexpressions b) (blockDeclaredIds b))
    (hregular : ∀ p ∈ blocksIn b, Block.Regular p.1 p.2) :
    (∀ x ∈ b.flatMap Statement.used, Finds ids (around.map Region.declared) x) ∧
      allRegions (FindsBindings ids) around (blockRegions b) := by
  match b with
  | [] => exact ⟨List.forall_mem_nil _, trivial⟩
  | st :: b =>
    rw [blocksIn, List.forall_mem_append] at hregular
    obtain ⟨hused, hregions⟩ := st.finds hlocated.left h.left hregular.1
    obtain ⟨hused', hregions'⟩ := finds_statements b hlocated.right h.right hregular.2
    rw [List.flatMap_cons, List.forall_mem_append, blockRegions, allRegions_append]
    exact ⟨⟨hused, hused'⟩, hregions, hregions'⟩

end

end

end LiterateFun
