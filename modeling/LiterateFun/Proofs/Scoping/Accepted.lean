import LiterateFun.Lowering.Generator
import LiterateFun.Proofs.Scoping.Variables

/-!
This module contains what is known of the blocks that a session accepts: where their expressions
stand, which ids their `:=` have, and that a generator loses none of their parts.
-/

namespace LiterateFun

open Resolution

/--
A part of a program with its place among the scopes. The part is given by its items, its expressions
and the ids of its `:=`.
-/
structure Placed (globals : List (String × Nat)) (ids : List Nat) (outer : List Layer) (l : Layer)
    (items : List Item) (es : List Expr) (declared : List Nat) : Prop where
  wellBound : WellBound globals outer l items
  assignable : Assignable es
  declared : declared ⊆ ids

namespace Placed

variable {globals : List (String × Nat)} {ids : List Nat} {outer : List Layer} {l : Layer}
  {items items₁ items₂ : List Item} {es es₁ es₂ : List Expr}
  {declared declared₁ declared₂ : List Nat}

theorem left (h : Placed globals ids outer l (items₁ ++ items₂) (es₁ ++ es₂)
    (declared₁ ++ declared₂)) : Placed globals ids outer l items₁ es₁ declared₁ :=
  ⟨h.wellBound.left, (assignable_append.1 h.assignable).1, (List.append_subset.1 h.declared).1⟩

theorem right (h : Placed globals ids outer l (items₁ ++ items₂) (es₁ ++ es₂)
    (declared₁ ++ declared₂)) : Placed globals ids outer (l.extend items₁) items₂ es₂ declared₂ :=
  ⟨h.wellBound.right, (assignable_append.1 h.assignable).2, (List.append_subset.1 h.declared).2⟩

theorem tail {e : Expr} (h : Placed globals ids outer l items (e :: es) declared) :
    Placed globals ids outer l items es declared :=
  ⟨h.wellBound, h.assignable.of_cons, h.declared⟩

theorem inner {definitions : List (String × Identifier)}
    (h : Placed globals ids outer l [.scope definitions items] es declared) :
    Placed globals ids (l :: outer) ⟨definitions, []⟩ items es declared :=
  ⟨h.wellBound.inner, h.assignable, h.declared⟩

end Placed

def Expr.IsPlaced (globals : List (String × Nat)) (ids : List Nat) (e : Expr) : Prop :=
  ∃ outer l, Placed globals ids outer l e.items e.subexpressions e.declaredIds

section

variable {globals : List (String × Nat)} {ids : List Nat}

mutual

theorem Expr.isPlaced {outer : List Layer} {l : Layer} (e : Expr)
    (h : Placed globals ids outer l e.items e.subexpressions e.declaredIds) {e' : Expr}
    (he : e' ∈ e.subexpressions) : e'.IsPlaced globals ids := by
  match e with
  | .string value =>
    rw [List.mem_singleton.1 he]
    exact ⟨outer, l, h⟩
  | .number value =>
    rw [List.mem_singleton.1 he]
    exact ⟨outer, l, h⟩
  | .identifier x =>
    rw [List.mem_singleton.1 he]
    exact ⟨outer, l, h⟩
  | .binary op left right =>
    rw [Expr.subexpressions, List.mem_cons, List.mem_append] at he
    rcases he with rfl | he | he
    · exact ⟨outer, l, h⟩
    · exact left.isPlaced h.tail.left he
    · exact right.isPlaced h.tail.right he
  | .call callee arguments =>
    rw [Expr.subexpressions, List.mem_cons, List.mem_append] at he
    rcases he with rfl | he | he
    · exact ⟨outer, l, h⟩
    · exact callee.isPlaced h.tail.left he
    · exact Expr.isPlaced_list arguments h.tail.right he
  | .assign target value =>
    obtain ⟨x, rfl⟩ := h.assignable target value List.mem_cons_self
    have htail : Placed globals ids outer l ([.use x] ++ value.items)
        ([.identifier x] ++ value.subexpressions) ([] ++ value.declaredIds) := h.tail
    rw [Expr.subexpressions, List.mem_cons, List.mem_append] at he
    rcases he with rfl | he | he
    · exact ⟨outer, l, h⟩
    · exact (Expr.identifier x).isPlaced htail.left he
    · exact value.isPlaced htail.right he
  | .declare x value =>
    rw [Expr.subexpressions, List.mem_cons] at he
    rcases he with rfl | he
    · exact ⟨outer, l, h⟩
    · apply value.isPlaced _ he
      · exact outer
      · exact l
      · exact ⟨h.wellBound.left, h.assignable.of_cons, (List.append_subset.1 h.declared).2⟩

theorem Expr.isPlaced_list {outer : List Layer} {l : Layer} (es : List Expr)
    (h : Placed globals ids outer l (Expr.itemsList es) (Expr.subexpressionsList es)
      (Expr.declaredIdsList es)) {e' : Expr} (he : e' ∈ Expr.subexpressionsList es) :
    e'.IsPlaced globals ids := by
  match es with
  | [] => cases he
  | e :: es =>
    rw [Expr.subexpressionsList, List.mem_append] at he
    rcases he with he | he
    · exact e.isPlaced h.left he
    · exact Expr.isPlaced_list es h.right he

end

mutual

theorem Statement.isPlaced {outer : List Layer} {l : Layer} (st : Statement)
    (h : Placed globals ids outer l st.items st.subexpressions st.declaredIds) {e : Expr}
    (he : e ∈ st.subexpressions) : e.IsPlaced globals ids := by
  match st with
  | .expression value => exact value.isPlaced h he
  | .return value => exact value.isPlaced h he
  | .declaration d => exact d.isPlaced h he
  | .conditional condition consequent none =>
    rw [Statement.subexpressions, List.mem_append] at he
    rcases he with he | he
    · exact condition.isPlaced h.inner.left he
    · exact isPlaced_block consequent h.inner.right.inner he
  | .conditional condition consequent (some alternative) =>
    rw [Statement.subexpressions, List.mem_append, List.mem_append] at he
    rcases he with (he | he) | he
    · exact condition.isPlaced h.inner.left.left he
    · exact isPlaced_block consequent h.inner.left.right.inner he
    · exact isPlaced_block alternative h.inner.right.inner he

theorem Declaration.isPlaced {outer : List Layer} {l : Layer} (d : Declaration)
    (h : Placed globals ids outer l d.items d.subexpressions d.declaredIds) {e : Expr}
    (he : e ∈ d.subexpressions) : e.IsPlaced globals ids := by
  match d with
  | .class name body => exact isPlaced_block body h.inner he
  | .function name parameters body => exact isPlaced_block body h.inner.inner he
  | .method owner name parameters body =>
    have hsplit : Placed globals ids outer l
        ([.use owner] ++ Declaration.items (.function name parameters body))
        ([] ++ blockSubexpressions body) ([] ++ blockDeclaredIds body) := h
    exact isPlaced_block body hsplit.right.inner.inner he

theorem isPlaced_block {outer : List Layer} {l : Layer} (b : List Statement)
    (h : Placed globals ids outer l (blockItems b) (blockSubexpressions b) (blockDeclaredIds b))
    {e : Expr} (he : e ∈ blockSubexpressions b) : e.IsPlaced globals ids := by
  match b with
  | [] => cases he
  | st :: b =>
    rw [blockSubexpressions, List.mem_append] at he
    rcases he with he | he
    · exact st.isPlaced h.left he
    · exact isPlaced_block b h.right he

end

end

def idsOf (definitions : List (String × Identifier)) : List Nat :=
  definitions.filterMap fun p => p.2.id

theorem idsOf_append (definitions₁ definitions₂ : List (String × Identifier)) :
    idsOf (definitions₁ ++ definitions₂) = idsOf definitions₁ ++ idsOf definitions₂ := by
  rw [idsOf, idsOf, idsOf, List.filterMap_append]

theorem mem_idsOf {definitions : List (String × Identifier)} {id : Nat} :
    id ∈ idsOf definitions ↔ ∃ p ∈ definitions, p.2.id = some id := by
  rw [idsOf, List.mem_filterMap]

mutual

theorem Expr.idsOf_perm (e : Expr) (h : Assignable e.subexpressions) :
    (idsOf (definitionsOf e.items)).Perm e.declaredIds := by
  match e with
  | .string value => exact .nil
  | .number value => exact .nil
  | .identifier x => exact .nil
  | .binary op left right =>
    rw [Expr.subexpressions, assignable_cons (by simp), assignable_append] at h
    rw [Expr.items, definitionsOf_append, idsOf_append]
    exact (left.idsOf_perm h.1).append (right.idsOf_perm h.2)
  | .call callee arguments =>
    rw [Expr.subexpressions, assignable_cons (by simp), assignable_append] at h
    rw [Expr.items, definitionsOf_append, idsOf_append]
    exact (callee.idsOf_perm h.1).append (Expr.idsOf_perm_list arguments h.2)
  | .assign target value =>
    obtain ⟨x, rfl⟩ := h target value List.mem_cons_self
    rw [Expr.subexpressions, assignable_assign, assignable_append] at h
    exact value.idsOf_perm h.2
  | .declare x value =>
    rw [Expr.subexpressions, assignable_cons (by simp)] at h
    rw [Expr.items, definitionsOf_append, idsOf_append, Expr.declaredIds]
    have hx : idsOf (definitionsOf [.bind x]) = x.id.toList := by
      simp only [idsOf, definitionsOf, Item.definitions, List.append_nil]
      cases hid : x.id <;> simp [hid]
    rw [hx]
    exact List.perm_append_comm.trans ((value.idsOf_perm h).append_left _)

theorem Expr.idsOf_perm_list (es : List Expr) (h : Assignable (Expr.subexpressionsList es)) :
    (idsOf (definitionsOf (Expr.itemsList es))).Perm (Expr.declaredIdsList es) := by
  match es with
  | [] => exact .nil
  | e :: es =>
    rw [Expr.subexpressionsList, assignable_append] at h
    rw [Expr.itemsList, definitionsOf_append, idsOf_append]
    exact (e.idsOf_perm h.1).append (Expr.idsOf_perm_list es h.2)

end

def Statement.declaration? : Statement → Option Declaration
  | .declaration d => some d
  | _ => none

theorem blockDeclaredIds_eq_flatMap (b : Block) :
    blockDeclaredIds b = b.flatMap Statement.declaredIds := by
  induction b with
  | nil => rfl
  | cons st b ih => rw [blockDeclaredIds, ih, List.flatMap_cons]

namespace Generator

theorem addDeclaration_of_new {g : Generator} {d : Declaration}
    (h : g.declarations.any (isClassNamed d.qualifiedName) = false) :
    g.addDeclaration d = { g with declarations := g.declarations ++ [d] } := by
  match d with
  | .class name body =>
    simp only [addDeclaration]
    rw [if_neg]
    rw [Bool.not_eq_true]
    exact h
  | .function name parameters body => rfl
  | .method owner name parameters body => rfl

theorem eq_qualifiedName_of_isClassNamed {name : String} {d : Declaration}
    (h : isClassNamed name d = true) : name = d.qualifiedName := by
  match d with
  | .class name' body => exact (of_decide_eq_true h).symm
  | .function name' parameters body => cases h
  | .method owner name' parameters body => cases h

theorem any_isClassNamed_append {ds : List Declaration} {d : Declaration} {name : String}
    (hds : ds.any (isClassNamed name) = false) (hd : name ≠ d.qualifiedName) :
    (ds ++ [d]).any (isClassNamed name) = false := by
  rw [List.any_append, hds, Bool.false_or, List.any_cons, List.any_nil, Bool.or_false,
    ← Bool.not_eq_true]
  intro h
  exact hd (eq_qualifiedName_of_isClassNamed h)

theorem foldl_add {g : Generator} {b : Block}
    (hnew : ∀ p ∈ b.hoisted, g.declarations.any (isClassNamed p.1) = false)
    (hnodup : (b.hoisted.map Prod.fst).Nodup) :
    b.foldl add g = { g with
      declarations := g.declarations ++ b.filterMap Statement.declaration?
      statements := g.statements ++ b.filter fun st => st.declaration?.isNone } := by
  induction b generalizing g with
  | nil => simp
  | cons st b ih =>
    rw [List.foldl_cons]
    by_cases hst : ∃ d, st = .declaration d
    · obtain ⟨d, rfl⟩ := hst
      rw [Block.hoisted] at hnew hnodup
      rw [List.map_cons, List.nodup_cons] at hnodup
      -- No class has the name yet, so the declaration is not put into one.
      have hadd : g.add (.declaration d) = { g with declarations := g.declarations ++ [d] } :=
        addDeclaration_of_new (hnew _ List.mem_cons_self)
      rw [hadd, ih _ hnodup.2]
      · simp [Statement.declaration?]
      · intro p hp
        apply any_isClassNamed_append (hnew p (List.mem_cons_of_mem _ hp))
        intro heq
        apply hnodup.1
        exact List.mem_map.2 ⟨p, hp, heq⟩
    · have hne : ∀ d, st ≠ .declaration d := fun d heq => hst ⟨d, heq⟩
      have hadd : g.add st = { g with statements := g.statements ++ [st] } := by
        cases st with
        | declaration d => exact absurd rfl (hne d)
        | _ => rfl
      have hnone : st.declaration? = none := by
        cases st with
        | declaration d => exact absurd rfl (hne d)
        | _ => rfl
      rw [Block.hoisted_cons hne] at hnew hnodup
      rw [hadd, ih _ hnodup]
      · simp [hnone]
      · exact hnew

theorem ofBlock_eq {b : Block} (h : (b.hoisted.map Prod.fst).Nodup) :
    ofBlock b = {
      declarations := b.filterMap Statement.declaration?
      statements := b.filter fun st => st.declaration?.isNone } := by
  rw [ofBlock, foldl_add (fun p hp => rfl) h]
  rfl

theorem mem_declaredIds_ofBlock {b : Block} (h : (b.hoisted.map Prod.fst).Nodup) {id : Nat} :
    id ∈ (ofBlock b).declaredIds ↔ id ∈ blockDeclaredIds b := by
  rw [ofBlock_eq h, declaredIds, List.mem_append]
  clear h
  induction b with
  | nil => simp [blockDeclaredIds]
  | cons st b ih =>
    have hrest :
        id ∈ blockDeclaredIds (st :: b) ↔ id ∈ st.declaredIds ∨ id ∈ blockDeclaredIds b := by
      rw [blockDeclaredIds, List.mem_append]
    rw [hrest, ← ih]
    cases st with
    | declaration d => simp [Statement.declaration?, Statement.declaredIds, or_assoc]
    | _ => simp [Statement.declaration?, or_left_comm]

theorem blockDeclaredIds_subset_ofBlock {b : Block} (h : (b.hoisted.map Prod.fst).Nodup) :
    blockDeclaredIds b ⊆ (ofBlock b).declaredIds :=
  fun _ hid => (mem_declaredIds_ofBlock h).2 hid

end Generator

namespace Resolution.Session

variable {s : Session} {b : Block}

theorem forgetIds_resolve (s : Session) (b : Block) :
    (s.resolve b).1.forgetIds = b.forgetIds := by
  rw [resolve_eq]
  exact Resolution.forgetIds_resolve s.surroundings b s.start

theorem acceptable_of_resolve (h : (s.resolve b).2.2 = none) : b.WellScoped s.globals := by
  rw [resolve_eq] at h
  rw [← acceptable_tree_iff]
  exact ((s.resolves_resolve b).succeeds_iff s.start _ _ s.standsFor_start).1 h

theorem assignable_resolve (h : (s.resolve b).2.2 = none) :
    Assignable (blockSubexpressions (s.resolve b).1) :=
  Assignable.of_same (s.forgetIds_resolve b) (acceptable_of_resolve h).assignable

theorem bound_resolve (h : (s.resolve b).2.2 = none) :
    ∃ t, Bound s.globals s.start t [] ⟨[], []⟩ [b.tree] [Block.tree (s.resolve b).1] := by
  rw [resolve_eq] at h ⊢
  exact ⟨_, (s.resolves_resolve b).bound s.start _ _ s.standsFor_start h⟩

theorem nodup_hoisted_resolve (h : (s.resolve b).2.2 = none) :
    (((s.resolve b).1.hoisted).map Prod.fst).Nodup := by
  obtain ⟨t, hbound⟩ := bound_resolve h
  have hsame := hbound.same
  simp only [relabelItems, Block.tree, Item.relabel, List.cons.injEq, Item.scope.injEq] at hsame
  have hnames : (s.resolve b).1.hoisted.map Prod.fst = b.hoisted.map Prod.fst := by
    have := congrArg (List.map Prod.fst) hsame.1.1
    simpa only [relabelDeclared, List.map_map, Function.comp_def] using this
  rw [hnames]
  exact (acceptable_of_resolve h).distinct _ .self

theorem wellBound_resolve (hs : s.Reachable) (h : (s.resolve b).2.2 = none) :
    WellBound s.globals [] ⟨[], []⟩ [Block.tree (s.resolve b).1] := by
  obtain ⟨t, hbound⟩ := bound_resolve h
  constructor
  · exact hbound.visible
  · intro p hp
    obtain ⟨id, hid, -⟩ := hbound.numbered.exists_id hp
    rw [hid]
    exact Option.some_ne_none id
  · rw [introduced, List.flatMap_singleton, Layer.definitions_extend, List.map_append]
    simp only [Layer.definitions, definitionsOf, List.append_nil, List.nil_append, List.map_map,
      Function.comp_def]
    have hnumbered := hbound.numbered
    simp only [definitionsOf, List.append_nil] at hnumbered
    rw [List.nodup_append]
    refine ⟨?_, hnumbered.nodup, ?_⟩
    · have := hs.wellNumbered.nodup.map (f := some) fun _ _ h => Option.some.inj h
      rwa [List.map_map] at this
    · intro a ha c hc
      obtain ⟨p, hp, rfl⟩ := List.mem_map.1 ha
      obtain ⟨q, hq, rfl⟩ := List.mem_map.1 hc
      obtain ⟨id, hid, hle, -⟩ := hnumbered.exists_id hq
      have hlt : p.2 < s.nextId := hs.wellNumbered.lt p hp
      have hle : s.nextId ≤ id := hle
      rw [hid]
      intro heq
      have := Option.some.inj heq
      omega

theorem isPlaced_resolve (hs : s.Reachable) (h : (s.resolve b).2.2 = none) {e : Expr}
    (he : e ∈ blockSubexpressions (s.resolve b).1) :
    e.IsPlaced s.globals (Generator.ofBlock (s.resolve b).1).declaredIds := by
  apply isPlaced_block _ _ he
  · exact [⟨[], []⟩]
  · exact ⟨(s.resolve b).1.hoisted, []⟩
  · exact ⟨(wellBound_resolve hs h).inner, assignable_resolve h,
      Generator.blockDeclaredIds_subset_ofBlock (nodup_hoisted_resolve h)⟩

end Resolution.Session

mutual

theorem Expr.scope_notMem_items (e : Expr) (declared : List (String × Identifier))
    (inner : List Item) : .scope declared inner ∉ e.items := by
  match e with
  | .string value => simp [Expr.items]
  | .number value => simp [Expr.items]
  | .identifier x => simp [Expr.items]
  | .binary op left right =>
    simp [Expr.items, left.scope_notMem_items declared inner,
      right.scope_notMem_items declared inner]
  | .call callee arguments =>
    simp [Expr.items, callee.scope_notMem_items declared inner,
      Expr.scope_notMem_itemsList arguments declared inner]
  | .assign target value =>
    simp [Expr.items, target.scope_notMem_items declared inner,
      value.scope_notMem_items declared inner]
  | .declare x value => simp [Expr.items, value.scope_notMem_items declared inner]

theorem Expr.scope_notMem_itemsList (es : List Expr) (declared : List (String × Identifier))
    (inner : List Item) : .scope declared inner ∉ Expr.itemsList es := by
  match es with
  | [] => simp [Expr.itemsList]
  | e :: es =>
    simp [Expr.itemsList, e.scope_notMem_items declared inner,
      Expr.scope_notMem_itemsList es declared inner]

end

mutual

theorem Expr.mem_identifiers_iff (e : Expr) (x : Identifier) :
    x ∈ e.identifiers ↔ .use x ∈ e.items ∨ .bind x ∈ e.items := by
  match e with
  | .string value => simp [Expr.identifiers, Expr.items]
  | .number value => simp [Expr.identifiers, Expr.items]
  | .identifier y => simp [Expr.identifiers, Expr.items]
  | .binary op left right =>
    simp only [Expr.identifiers, Expr.items, List.mem_append, left.mem_identifiers_iff,
      right.mem_identifiers_iff]
    tauto
  | .call callee arguments =>
    simp only [Expr.identifiers, Expr.items, List.mem_append, callee.mem_identifiers_iff,
      Expr.mem_identifiersList_iff arguments]
    tauto
  | .assign target value =>
    simp only [Expr.identifiers, Expr.items, List.mem_append, target.mem_identifiers_iff,
      value.mem_identifiers_iff]
    tauto
  | .declare y value =>
    simp only [Expr.identifiers, Expr.items, List.mem_cons, List.mem_append,
      value.mem_identifiers_iff, Item.bind.injEq, reduceCtorEq, List.not_mem_nil, or_false]
    tauto

theorem Expr.mem_identifiersList_iff (es : List Expr) (x : Identifier) :
    x ∈ Expr.identifiersList es ↔ .use x ∈ Expr.itemsList es ∨ .bind x ∈ Expr.itemsList es := by
  match es with
  | [] => simp [Expr.identifiersList, Expr.itemsList]
  | e :: es =>
    simp only [Expr.identifiersList, Expr.itemsList, List.mem_append, e.mem_identifiers_iff,
      Expr.mem_identifiersList_iff es]
    tauto

end

namespace Expr.IsPlaced

variable {globals : List (String × Nat)} {ids : List Nat} {e : Expr}

theorem assignable (h : e.IsPlaced globals ids) : Assignable e.subexpressions := by
  obtain ⟨outer, l, h⟩ := h
  exact h.assignable

theorem coherent (h : e.IsPlaced globals ids) : Coherent ids (freeIn e.items) := by
  obtain ⟨outer, l, h⟩ := h
  exact coherent_freeIn h.wellBound ids

theorem tracked (h : e.IsPlaced globals ids) : tracked ids (freeIn e.items) e.items := by
  obtain ⟨outer, l, h⟩ := h
  apply tracked_freeIn h.wellBound e.scope_notMem_items
  intro y hy
  have hmem := mem_definitionsOf_bind hy
  obtain ⟨id, hid⟩ := Option.ne_none_iff_exists'.1 (h.wellBound.bound _ hmem)
  refine ⟨id, h.declared ?_, hid⟩
  rw [← (e.idsOf_perm h.assignable).mem_iff, mem_idsOf]
  exact ⟨_, hmem, hid⟩

theorem known_of_mem (h : e.IsPlaced globals ids) {x : Identifier} (hx : x ∈ e.identifiers) :
    (freeIn e.items).after e.items x := by
  rw [e.mem_identifiers_iff] at hx
  cases hx with
  | inl huse => exact known_of_tracked h.tracked huse
  | inr hbind => exact Known.after_of_mem _ hbind

end Expr.IsPlaced

theorem Expr.exists_mem_of_known {e : Expr} {x : Identifier}
    (h : (freeIn e.items).after e.items x) :
    ∃ y ∈ e.identifiers, x.name = y.name ∧ x.id = y.id := by
  cases h with
  | inl hfree =>
    refine ⟨x, ?_, rfl, rfl⟩
    rw [e.mem_identifiers_iff]
    exact .inl hfree.1
  | inr hbound =>
    obtain ⟨y, hy, hsame⟩ := hbound
    refine ⟨y, ?_, hsame⟩
    rw [e.mem_identifiers_iff]
    exact .inr hy

end LiterateFun
