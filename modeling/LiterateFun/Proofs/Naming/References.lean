import LiterateFun.Proofs.Naming.Definitions

/-!
This module contains the references of resolved programs: a reference has the name of the definition
with its id, and the class of a method is the one of its block unless a variable has its name.
-/

namespace LiterateFun

open Resolution

theorem Item.Refers.definitions_subset {x : Identifier} {i : Item} {layers : List Layer}
    (h : i.Refers x layers) : layers.flatMap Layer.definitions ⊆ i.definitions := by
  induction h with
  | use => exact List.nil_subset _
  | @scope i layers declared before after h ih =>
    rw [List.flatMap_append, List.flatMap_singleton, Item.definitions, Layer.definitions,
      definitionsOf_append, definitionsOf, List.append_subset, List.append_subset]
    refine ⟨?_, List.subset_append_left _ _, ?_⟩
    · exact List.subset_append_of_subset_right _ (List.subset_append_of_subset_right _
        (List.subset_append_of_subset_left _ ih))
    · exact List.subset_append_of_subset_right _ (List.subset_append_left _ _)

mutual

theorem Item.exists_refers (i : Item) {x : Identifier} (h : .reference x ∈ i.marks) :
    ∃ layers, i.Refers x layers := by
  match i with
  | .use y =>
    rw [Item.marks, List.mem_singleton, Mark.reference.injEq] at h
    rw [h]
    exact ⟨[], .use⟩
  | .bind y =>
    rw [Item.marks, List.mem_singleton] at h
    cases h
  | .scope declared items =>
    rw [Item.marks, List.mem_append] at h
    cases h with
    | inl hdeclared =>
      obtain ⟨p, -, hp⟩ := List.mem_map.1 hdeclared
      cases hp
    | inr hitems =>
      obtain ⟨before, i, after, layers, rfl, hi⟩ := exists_refers_of_mem items hitems
      exact ⟨_, .scope hi⟩

theorem exists_refers_of_mem (items : List Item) {x : Identifier}
    (h : .reference x ∈ marksOf items) :
    ∃ before i after layers, items = before ++ i :: after ∧ i.Refers x layers := by
  match items with
  | [] => cases h
  | i :: items =>
    rw [marksOf, List.mem_append] at h
    cases h with
    | inl hi =>
      obtain ⟨layers, hlayers⟩ := i.exists_refers hi
      exact ⟨[], i, items, layers, rfl, hlayers⟩
    | inr hitems =>
      obtain ⟨before, j, after, layers, rfl, hj⟩ := exists_refers_of_mem items hitems
      exact ⟨i :: before, j, after, layers, rfl, hj⟩

end

theorem Item.Refers.reference_mem {x : Identifier} {i : Item} {layers : List Layer}
    (h : i.Refers x layers) : .reference x ∈ i.marks := by
  induction h with
  | use => exact List.mem_cons_self
  | @scope i layers declared before after h ih =>
    rw [Item.marks, marksOf_append, marksOf]
    exact List.mem_append_right _ (List.mem_append_right _ (List.mem_append_left _ ih))

section

variable {globals : List (String × Nat)} {b : Block}

theorem mark_mem_of_mem_blockRoles {role : Role} {x : Identifier} (h : (role, x) ∈ blockRoles b) :
    role.mark x ∈ b.tree.marks := by
  rw [← (roleMarks_blockRoles_perm b).mem_iff]
  exact List.mem_map.2 ⟨(role, x), h, rfl⟩

theorem mem_definitions_of_isScoped {role : Role} {x : Identifier} (h : (role, x) ∈ blockRoles b)
    (hrole : role.isScoped) : (x.name, x) ∈ b.tree.definitions := by
  have hmark : role.mark x = .definition x.name x := by
    cases role <;> first | rfl | cases hrole
  rw [← Item.filterMap_definition?_marks, List.mem_filterMap]
  exact ⟨_, hmark ▸ mark_mem_of_mem_blockRoles h, rfl⟩

theorem WellBound.mem_introduced_of_reference (h : WellBound globals [] ⟨[], []⟩ [b.tree])
    {x : Identifier} (hx : (.reference, x) ∈ blockRoles b) :
    (x.name, x.id) ∈ introduced globals [Layer.extend ⟨[], []⟩ [b.tree]] := by
  obtain ⟨layers, hlayers⟩ := b.tree.exists_refers (mark_mem_of_mem_blockRoles hx)
  have hvisible := (allItems_iff _).1 h.visible [] b.tree [] rfl x layers hlayers
  rw [Layer.extend_nil] at hvisible
  obtain ⟨binding, hbinding, hid⟩ := Option.map_eq_some_iff.1 hvisible
  have hmem := mem_introduced hbinding
  rw [hid, introduced, List.mem_append] at hmem
  rw [introduced, List.mem_append]
  refine hmem.imp_right fun hlayer => ?_
  obtain ⟨p, hp, heq⟩ := List.mem_map.1 hlayer
  refine List.mem_map.2 ⟨p, ?_, heq⟩
  rw [List.flatMap_append, List.flatMap_singleton] at hp
  rw [List.flatMap_singleton, Layer.definitions_extend, definitionsOf, definitionsOf,
    List.append_nil]
  exact hlayers.definitions_subset (by simpa [Layer.definitions, definitionsOf] using hp)

theorem WellBound.name_eq_of_id_eq (h : WellBound globals [] ⟨[], []⟩ [b.tree]) {x y : Identifier}
    (hx : (.reference, x) ∈ blockRoles b) {role : Role} (hy : (role, y) ∈ blockRoles b)
    (hrole : role.isScoped) (hid : x.id = y.id) : x.name = y.name := by
  have hyintroduced : (y.name, y.id) ∈ introduced globals [Layer.extend ⟨[], []⟩ [b.tree]] := by
    rw [introduced, List.mem_append]
    refine .inr (List.mem_map.2 ⟨(y.name, y), ?_, rfl⟩)
    rw [List.flatMap_singleton, Layer.definitions_extend, definitionsOf, definitionsOf,
      List.append_nil]
    exact List.mem_append_right _ (mem_definitions_of_isScoped hy hrole)
  have heq := List.inj_on_of_nodup_map h.nodup (h.mem_introduced_of_reference hx) hyintroduced hid
  exact congrArg Prod.fst heq

end

/--
A block in a part of a program. The part is given by its items, its expressions, its identifiers and
the ids of its `:=`.
-/
structure Block.PartOf (c : Block) (items : List Item) (es : List Expr)
    (roles : List (Role × Identifier)) (declared : List Nat) : Prop where
  within : ∃ i ∈ items, ∃ layers, c.tree.Within i layers
  subexpressions : blockSubexpressions c ⊆ es
  roles : blockRoles c ⊆ roles
  declared : blockDeclaredIds c ⊆ declared

namespace Block.PartOf

variable {c : Block} {items : List Item} {es : List Expr} {roles : List (Role × Identifier)}
  {declared : List Nat}

theorem self (c : Block) :
    c.PartOf [c.tree] (blockSubexpressions c) (blockRoles c) (blockDeclaredIds c) :=
  ⟨⟨c.tree, List.mem_cons_self, [], .self⟩, .refl _, .refl _, .refl _⟩

theorem left (h : c.PartOf items es roles declared) (items' : List Item) (es' : List Expr)
    (roles' : List (Role × Identifier)) (declared' : List Nat) :
    c.PartOf (items ++ items') (es ++ es') (roles ++ roles') (declared ++ declared') := by
  obtain ⟨i, hi, hlayers⟩ := h.within
  exact ⟨⟨i, List.mem_append_left _ hi, hlayers⟩,
    List.subset_append_of_subset_left _ h.subexpressions,
    List.subset_append_of_subset_left _ h.roles, List.subset_append_of_subset_left _ h.declared⟩

theorem right (h : c.PartOf items es roles declared) (items' : List Item) (es' : List Expr)
    (roles' : List (Role × Identifier)) (declared' : List Nat) :
    c.PartOf (items' ++ items) (es' ++ es) (roles' ++ roles) (declared' ++ declared) := by
  obtain ⟨i, hi, hlayers⟩ := h.within
  exact ⟨⟨i, List.mem_append_right _ hi, hlayers⟩,
    List.subset_append_of_subset_right _ h.subexpressions,
    List.subset_append_of_subset_right _ h.roles, List.subset_append_of_subset_right _ h.declared⟩

theorem inner (h : c.PartOf items es roles declared) (definitions : List (String × Identifier)) :
    c.PartOf [.scope definitions items] es roles declared := by
  obtain ⟨i, hi, layers, hlayers⟩ := h.within
  obtain ⟨before, after, rfl⟩ := List.append_of_mem hi
  exact ⟨⟨_, List.mem_cons_self, _, .scope hlayers⟩, h.subexpressions, h.roles, h.declared⟩

theorem of_mem {b : Block} {names : List Identifier} {p : List Identifier × Block}
    (h : ∀ p ∈ blocksIn b,
      p.2.PartOf (blockItems b) (blockSubexpressions b) (blockRoles b) (blockDeclaredIds b))
    (hp : p ∈ (names, b) :: blocksIn b) :
    p.2.PartOf [b.tree] (blockSubexpressions b) (blockRoles b) (blockDeclaredIds b) := by
  rcases List.mem_cons.1 hp with rfl | hp
  · exact .self b
  · exact (h p hp).inner b.hoisted

end Block.PartOf

mutual

theorem Statement.partOf_blocks (st : Statement) {p : List Identifier × Block}
    (hp : p ∈ st.blocks) :
    p.2.PartOf st.items st.subexpressions st.roles st.declaredIds := by
  match st with
  | .expression value => cases hp
  | .return value => cases hp
  | .declaration d => exact d.partOf_blocks hp
  | .conditional condition consequent none =>
    have hconsequent := Block.PartOf.of_mem (fun p => partOf_blocksIn consequent) hp
    exact (hconsequent.right _ _ _ _).inner []
  | .conditional condition consequent (some alternative) =>
    rw [Statement.blocks, List.mem_append] at hp
    rcases hp with hp | hp
    · have hconsequent := Block.PartOf.of_mem (fun p => partOf_blocksIn consequent) hp
      exact ((hconsequent.right _ _ _ _).left _ _ _ _).inner []
    · have halternative := Block.PartOf.of_mem (fun p => partOf_blocksIn alternative) hp
      exact (halternative.right _ _ _ _).inner []

theorem Declaration.partOf_blocks (d : Declaration) {p : List Identifier × Block}
    (hp : p ∈ d.blocks) :
    p.2.PartOf d.items d.subexpressions d.roles d.declaredIds := by
  match d with
  | .class name body =>
    have hbody := Block.PartOf.of_mem (fun p => partOf_blocksIn body) hp
    exact hbody.right [] [] [_] []
  | .function name parameters body =>
    have hbody := Block.PartOf.of_mem (fun p => partOf_blocksIn body) hp
    exact (hbody.inner (parametersDeclared parameters)).right [] []
      (_ :: parameterRoles parameters) []
  | .method owner name parameters body =>
    have hbody := Block.PartOf.of_mem (fun p => partOf_blocksIn body) hp
    exact (hbody.inner (parametersDeclared parameters)).right [_] []
      (_ :: _ :: parameterRoles parameters) []

theorem partOf_blocksIn (b : List Statement) {p : List Identifier × Block} (hp : p ∈ blocksIn b) :
    p.2.PartOf (blockItems b) (blockSubexpressions b) (blockRoles b) (blockDeclaredIds b) := by
  match b with
  | [] => cases hp
  | st :: b =>
    rcases List.mem_append.1 hp with hp | hp
    · exact (st.partOf_blocks hp).left _ _ _ _
    · exact (partOf_blocksIn b hp).right _ _ _ _

end

theorem Block.partOf {b : Block} {p : List Identifier × Block} (hp : p ∈ ([], b) :: blocksIn b) :
    p.2.PartOf [b.tree] (blockSubexpressions b) (blockRoles b) (blockDeclaredIds b) :=
  .of_mem (fun _ => partOf_blocksIn b) hp

theorem Block.exists_within {b : Block} {p : List Identifier × Block}
    (hp : p ∈ ([], b) :: blocksIn b) : ∃ layers, p.2.tree.Within b.tree layers := by
  obtain ⟨i, hi, hlayers⟩ := (Block.partOf hp).within
  rw [List.mem_singleton.1 hi] at hlayers
  exact hlayers

section

variable {globals : List (String × Nat)}

theorem Statement.roles_subset_blockRoles {b : Block} {st : Statement} (h : st ∈ b) :
    st.roles ⊆ blockRoles b := by
  induction b with
  | nil => cases h
  | cons st' b ih =>
    rw [blockRoles]
    rcases List.mem_cons.1 h with rfl | h
    · exact List.subset_append_left _ _
    · exact List.subset_append_of_subset_right _ (ih h)

theorem blockItems_append (b₁ b₂ : List Statement) :
    blockItems (b₁ ++ b₂) = blockItems b₁ ++ blockItems b₂ := by
  induction b₁ with
  | nil => rfl
  | cons st b₁ ih => rw [List.cons_append, blockItems, blockItems, ih, List.append_assoc]

theorem owner_cases {layers : List Layer} {b before after : Block} {owner name : Identifier}
    {parameters : List Identifier} {body : Block}
    (h : allItems (HasVisibleId globals) layers ⟨b.hoisted, []⟩ (blockItems b))
    (hb : b = before ++ .declaration (.method owner name parameters body) :: after)
    (hhoisted : (b.hoisted.map Prod.fst).Nodup) {c : Identifier}
    (hc : c ∈ b.flatMap Statement.scopeNames) (hname : owner.name = c.name) :
    (owner.id = c.id ∧ ∀ y ∈ before.flatMap Statement.targets, y.name ≠ owner.name) ∨
      ∃ y ∈ before.flatMap Statement.targets, y.name = owner.name ∧ owner.id = y.id := by
  have hmem := mem_hoisted_of_scopeNames hc
  have hvisible : HasVisibleId globals owner (⟨b.hoisted, blockItems before⟩ :: layers) := by
    have hitems : blockItems b =
        blockItems before ++ .use owner :: ((Declaration.function name parameters body).items ++
          blockItems after) := by
      conv_lhs => rw [hb, blockItems_append, blockItems]
      rfl
    rw [hitems, allItems_append] at h
    exact h.2.1
  rw [HasVisibleId, visible?, Layer.definition?] at hvisible
  cases hbound : (blockItems before).reverse.findSome? (Item.bound? owner.name) with
  | some y =>
    right
    rw [hbound] at hvisible
    obtain ⟨hy, hyname⟩ := mem_of_findSome?_bound? hbound
    refine ⟨y, mem_flatMap_targets.2 (List.mem_reverse.1 hy), hyname, ?_⟩
    exact (Option.some.inj hvisible).symm
  | none =>
    left
    have hlookup : b.hoisted.lookup owner.name = some c := by
      rw [hname]
      obtain ⟨d, hd⟩ := Option.isSome_iff_exists.1 (lookup_isSome_of_mem hmem)
      have heq := List.inj_on_of_nodup_map hhoisted (mem_of_lookup_eq_some hd) hmem rfl
      rw [hd]
      exact congrArg (fun p => some p.2) heq
    rw [hbound, hlookup] at hvisible
    refine ⟨(Option.some.inj hvisible).symm, ?_⟩
    intro y hy hyname
    have hnone := List.findSome?_eq_none_iff.1 hbound (.bind y)
      (List.mem_reverse.2 (mem_flatMap_targets.1 hy))
    rw [Item.bound?, if_pos hyname] at hnone
    cases hnone

end

structure Resolved (globals : List (String × Nat)) (b : Block) : Prop where
  wellBound : WellBound globals [] ⟨[], []⟩ [b.tree]
  identified : Identified globals (blockRoles b)
  distinct : Resolution.Distinct [b.tree]
  assignable : Assignable (blockSubexpressions b)

theorem Resolution.Session.resolved_resolve {s : Session} {b : Block} (hs : s.Reachable)
    (h : (s.resolve b).2.2 = none) : Resolved s.globals (s.resolve b).1 :=
  ⟨wellBound_resolve hs h, identified_resolve hs h, distinct_resolve h, assignable_resolve h⟩

theorem Resolved.nodup_hoisted {globals : List (String × Nat)} {b : Block} (h : Resolved globals b)
    {p : List Identifier × Block} (hp : p ∈ ([], b) :: blocksIn b) :
    (p.2.hoisted.map Prod.fst).Nodup := by
  have hdistinct := h.distinct
  rw [Block.tree, distinct_scope] at hdistinct
  rcases List.mem_cons.1 hp with rfl | hp
  · exact hdistinct.1
  · exact (nodup_blocksIn b hdistinct.2 hp).2

end LiterateFun
