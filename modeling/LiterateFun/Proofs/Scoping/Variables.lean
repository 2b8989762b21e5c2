import LiterateFun.Lowering.Basic
import LiterateFun.Proofs.Scoping.Session

/-!
This module contains the variables of resolved programs. At every point of a program, a reference is
to a variable that exists there, and a `:=` makes a variable that did not exist before.
-/

namespace LiterateFun

abbrev Known := Identifier → Prop

namespace Known

def after (K : Known) (items : List Item) : Known := fun x =>
  K x ∨ ∃ y, .bind y ∈ items ∧ x.name = y.name ∧ x.id = y.id

theorem after_of_known {K : Known} {x : Identifier} (h : K x) (items : List Item) :
    K.after items x :=
  .inl h

theorem after_of_mem (K : Known) {x : Identifier} {items : List Item} (h : .bind x ∈ items) :
    K.after items x :=
  .inr ⟨x, h, rfl, rfl⟩

theorem after_nil (K : Known) : K.after [] = K := by
  funext x
  simp [after]

theorem after_append (K : Known) (items₁ items₂ : List Item) :
    (K.after items₁).after items₂ = K.after (items₁ ++ items₂) := by
  funext x
  simp [after, or_assoc, or_and_right, exists_or]

theorem after_cons_use (K : Known) (x : Identifier) (items : List Item) :
    K.after (.use x :: items) = K.after items := by
  funext y
  simp [after]

theorem after_use (K : Known) (x : Identifier) : K.after [.use x] = K := by
  rw [after_cons_use, after_nil]

theorem after_scope (K : Known) (declared : List (String × Identifier)) (items : List Item) :
    K.after [.scope declared items] = K := by
  funext y
  simp [after]

end Known

mutual

/-- Every reference is to a known variable, and every `:=` makes a new one, with one of the ids. -/
def Item.Tracked (ids : List Nat) (K : Known) : Item → Prop
  | .use x => K x
  | .bind x => (∃ id ∈ ids, x.id = some id) ∧ ∀ y, K y → y.id ≠ x.id
  | .scope _ items => tracked ids K items

def tracked (ids : List Nat) (K : Known) : List Item → Prop
  | [] => True
  | i :: items => i.Tracked ids K ∧ tracked ids (K.after [i]) items

end

theorem tracked_append {ids : List Nat} {K : Known} {items₁ items₂ : List Item} :
    tracked ids K (items₁ ++ items₂) ↔
      tracked ids K items₁ ∧ tracked ids (K.after items₁) items₂ := by
  induction items₁ generalizing K with
  | nil => simp [tracked, Known.after_nil]
  | cons i items₁ ih =>
    rw [List.cons_append, tracked, tracked, ih, Known.after_append, and_assoc]
    rfl

theorem tracked_singleton {ids : List Nat} {K : Known} {i : Item} :
    tracked ids K [i] ↔ i.Tracked ids K := by
  simp [tracked]

theorem id_ne_of_tracked {ids : List Nat} {K : Known} {items : List Item}
    (h : tracked ids K items) {x y : Identifier} (hx : K x) (hy : .bind y ∈ items) :
    x.id ≠ y.id := by
  induction items generalizing K with
  | nil => cases hy
  | cons i items ih =>
    rw [tracked] at h
    rw [List.mem_cons] at hy
    cases hy with
    | inl heq =>
      subst heq
      exact h.1.2 x hx
    | inr hmem => exact ih h.2 (K.after_of_known hx [i]) hmem

theorem exists_id_of_tracked {ids : List Nat} {K : Known} {items : List Item}
    (h : tracked ids K items) {y : Identifier} (hy : .bind y ∈ items) :
    ∃ id ∈ ids, y.id = some id := by
  induction items generalizing K with
  | nil => cases hy
  | cons i items ih =>
    rw [tracked] at h
    rw [List.mem_cons] at hy
    cases hy with
    | inl heq =>
      subst heq
      exact h.1.1
    | inr hmem => exact ih h.2 hmem

theorem known_of_tracked {ids : List Nat} {K : Known} {items : List Item}
    (h : tracked ids K items) {x : Identifier} (hx : .use x ∈ items) : K.after items x := by
  obtain ⟨before, after, rfl⟩ := List.append_of_mem hx
  rw [tracked_append] at h
  rw [← Known.after_append]
  exact Known.after_of_known h.2.1 _

/-- Identifiers belong to the same binding if and only if they have the same variable. -/
def Coherent (ids : List Nat) (K : Known) : Prop :=
  ∀ x y, K x → K y → (x.variable ids = y.variable ids ↔ x.id = y.id)

theorem Identifier.variable_congr {x y : Identifier} (hname : x.name = y.name) (hid : x.id = y.id)
    (ids : List Nat) : x.variable ids = y.variable ids := by
  rw [Identifier.variable, Identifier.variable, hname, hid]

theorem Identifier.id_eq_of_variable_eq {x y : Identifier} {ids : List Nat} {id : Nat}
    (hid : id ∈ ids) (hy : y.id = some id) (h : x.variable ids = y.variable ids) :
    x.id = y.id := by
  rw [Identifier.variable, Identifier.variable, Script.Variable.mk.injEq, hy,
    Option.filter_some_pos (by simpa using hid), Option.filter_eq_some_iff] at h
  rw [h.2.1, hy]

theorem variable_ne_of_tracked {ids : List Nat} {K : Known} {items : List Item}
    (h : tracked ids K items) {x y : Identifier} (hx : K x) (hy : .bind y ∈ items) :
    x.variable ids ≠ y.variable ids := by
  intro heq
  obtain ⟨id, hid, hyid⟩ := exists_id_of_tracked h hy
  exact id_ne_of_tracked h hx hy (x.id_eq_of_variable_eq hid hyid heq)

theorem Coherent.after {ids : List Nat} {K : Known} {items : List Item} (hK : Coherent ids K)
    (h : tracked ids K items) : Coherent ids (K.after items) := by
  induction items generalizing K with
  | nil =>
    rw [Known.after_nil]
    exact hK
  | cons i items ih =>
    rw [tracked] at h
    have happend := Known.after_append K [i] items
    rw [List.singleton_append] at happend
    rw [← happend]
    refine ih ?_ h.2
    cases i with
    | use x =>
      rw [Known.after_use]
      exact hK
    | scope declared inner =>
      rw [Known.after_scope]
      exact hK
    | bind a =>
      obtain ⟨⟨id, hid, ha⟩, hfresh⟩ := h.1
      -- A variable that was known before has neither the id nor the name of the new one.
      have hnew : ∀ x y : Identifier, K x → y.name = a.name ∧ y.id = a.id →
          (x.variable ids = y.variable ids ↔ x.id = y.id) := by
        intro x y hx hy
        have hne : x.id ≠ y.id := by
          rw [hy.2]
          exact hfresh x hx
        constructor
        · intro heq
          exact x.id_eq_of_variable_eq hid (hy.2.trans ha) heq
        · intro heq
          exact absurd heq hne
      unfold Coherent
      simp only [Known.after, List.mem_singleton, Item.bind.injEq, exists_eq_left]
      rintro x y (hx | hx) (hy | hy)
      · exact hK x y hx hy
      · exact hnew x y hx hy
      · rw [eq_comm, hnew y x hy hx, eq_comm]
      · have hname := hx.1.trans hy.1.symm
        have hids := hx.2.trans hy.2.symm
        simp only [x.variable_congr hname hids, hids]

def Layer.definitions (l : Layer) : List (String × Identifier) :=
  l.declared ++ definitionsOf l.before

theorem Layer.definitions_extend (l : Layer) (items : List Item) :
    (l.extend items).definitions = l.definitions ++ definitionsOf items := by
  rw [Layer.definitions, Layer.definitions, Layer.extend, definitionsOf_append, List.append_assoc]

theorem mem_definitionsOf_bind {items : List Item} {x : Identifier} (h : .bind x ∈ items) :
    (x.name, x) ∈ definitionsOf items := by
  obtain ⟨before, after, rfl⟩ := List.append_of_mem h
  rw [definitionsOf_append, definitionsOf, Item.definitions]
  simp

theorem mem_of_findSome?_bound? {items : List Item} {name : String} {x : Identifier}
    (h : items.findSome? (Item.bound? name) = some x) : .bind x ∈ items ∧ x.name = name := by
  obtain ⟨i, hi, hx⟩ := List.exists_of_findSome?_eq_some h
  cases i with
  | use y => cases hx
  | scope declared inner => cases hx
  | bind y =>
    rw [Item.bound?] at hx
    split at hx
    · cases hx
      exact ⟨hi, by assumption⟩
    · cases hx

theorem Layer.definition?_extend (l : Layer) (items : List Item) (name : String) :
    (l.extend items).definition? name =
      (items.reverse.findSome? (Item.bound? name)).or (l.definition? name) := by
  unfold Layer.definition? Layer.extend
  rw [List.reverse_append, List.findSome?_append]
  cases items.reverse.findSome? (Item.bound? name) <;> rfl

theorem Layer.bind_or_mem {l : Layer} {name : String} {x : Identifier}
    (h : l.definition? name = some x) :
    (.bind x ∈ l.before ∧ x.name = name) ∨ (name, x) ∈ l.declared := by
  unfold Layer.definition? at h
  cases hbound : l.before.reverse.findSome? (Item.bound? name) with
  | some y =>
    rw [hbound] at h
    cases h
    obtain ⟨hmem, hname⟩ := mem_of_findSome?_bound? hbound
    exact .inl ⟨List.mem_reverse.1 hmem, hname⟩
  | none =>
    rw [hbound] at h
    exact .inr (mem_of_lookup_eq_some h)

theorem Layer.mem_definitions {l : Layer} {name : String} {x : Identifier}
    (h : l.definition? name = some x) : (name, x) ∈ l.definitions := by
  rw [Layer.definitions, List.mem_append]
  rcases Layer.bind_or_mem h with ⟨hbind, rfl⟩ | hmem
  · exact .inr (mem_definitionsOf_bind hbind)
  · exact .inl hmem

theorem visible?_append_cases {globals : List (String × Nat)} {inner outer : List Layer}
    {name : String} {binding : Binding}
    (h : visible? globals (inner ++ outer) name = some binding) :
    (∃ x, (name, x) ∈ inner.flatMap Layer.definitions ∧ binding = .definition x) ∨
      visible? globals outer name = some binding := by
  induction inner with
  | nil => exact .inr h
  | cons l inner ih =>
    rw [List.cons_append, visible?] at h
    rw [List.flatMap_cons]
    cases hl : l.definition? name with
    | some x =>
      rw [hl] at h
      cases h
      exact .inl ⟨x, List.mem_append_left _ (Layer.mem_definitions hl), rfl⟩
    | none =>
      rw [hl] at h
      refine (ih h).imp_left ?_
      rintro ⟨x, hx, hbinding⟩
      exact ⟨x, List.mem_append_right _ hx, hbinding⟩

def introduced (globals : List (String × Nat)) (layers : List Layer) :
    List (String × Option Nat) :=
  globals.map (fun p => (p.1, some p.2)) ++
    (layers.flatMap Layer.definitions).map fun p => (p.1, p.2.id)

theorem mem_introduced {globals : List (String × Nat)} {layers : List Layer} {name : String}
    {binding : Binding} (h : visible? globals layers name = some binding) :
    (name, binding.id) ∈ introduced globals layers := by
  unfold introduced
  rw [List.mem_append]
  induction layers with
  | nil =>
    obtain ⟨id, hid, rfl⟩ := Option.map_eq_some_iff.1 h
    exact .inl (List.mem_map.2 ⟨(name, id), mem_of_lookup_eq_some hid, rfl⟩)
  | cons l layers ih =>
    rw [List.flatMap_cons, List.map_append, List.mem_append]
    rw [visible?] at h
    cases hl : l.definition? name with
    | some x =>
      rw [hl] at h
      cases h
      exact .inr (.inl (List.mem_map.2 ⟨(name, x), Layer.mem_definitions hl, rfl⟩))
    | none =>
      rw [hl] at h
      cases ih h with
      | inl hglobal => exact .inl hglobal
      | inr hlayers => exact .inr (.inr hlayers)

theorem introduced_subset_cons (globals : List (String × Nat)) (l : Layer) (layers : List Layer) :
    introduced globals layers ⊆ introduced globals (l :: layers) := by
  rw [introduced, introduced, List.flatMap_cons, List.map_append]
  exact List.append_subset.2 ⟨List.subset_append_left _ _,
    List.subset_append_of_subset_right _ (List.subset_append_right _ _)⟩

theorem mem_introduced_of_bind (globals : List (String × Nat)) {layers : List Layer} {l : Layer}
    (hl : l ∈ layers) {x : Identifier} (hx : .bind x ∈ l.before) :
    (x.name, x.id) ∈ introduced globals layers := by
  apply List.mem_append_right
  refine List.mem_map.2 ⟨(x.name, x), ?_, rfl⟩
  refine List.mem_flatMap.2 ⟨l, hl, ?_⟩
  exact List.mem_append_right _ (mem_definitionsOf_bind hx)

/--
Items at a point of a resolved program: the references have the ids of their visible bindings, and
no two definitions have the same id.
-/
structure WellBound (globals : List (String × Nat)) (outer : List Layer) (l : Layer)
    (items : List Item) : Prop where
  visible : allItems (Resolution.HasVisibleId globals) outer l items
  bound : ∀ p ∈ definitionsOf items, p.2.id ≠ none
  nodup : ((introduced globals (l.extend items :: outer)).map Prod.snd).Nodup

namespace WellBound

variable {globals : List (String × Nat)} {outer : List Layer} {l : Layer}

theorem left {items₁ items₂ : List Item} (h : WellBound globals outer l (items₁ ++ items₂)) :
    WellBound globals outer l items₁ := by
  constructor
  · exact (allItems_append.1 h.visible).1
  · intro p hp
    apply h.bound
    rw [definitionsOf_append]
    exact List.mem_append_left _ hp
  · refine List.Nodup.sublist ?_ h.nodup
    rw [← Layer.extend_extend, introduced, introduced, List.flatMap_cons, List.flatMap_cons,
      Layer.definitions_extend _ items₂]
    apply List.Sublist.map
    apply (List.Sublist.refl _).append
    apply List.Sublist.map
    apply List.Sublist.append_right
    apply List.sublist_append_left

theorem right {items₁ items₂ : List Item} (h : WellBound globals outer l (items₁ ++ items₂)) :
    WellBound globals outer (l.extend items₁) items₂ := by
  constructor
  · exact (allItems_append.1 h.visible).2
  · intro p hp
    apply h.bound
    rw [definitionsOf_append]
    exact List.mem_append_right _ hp
  · rw [Layer.extend_extend]
    exact h.nodup

theorem inner {declared : List (String × Identifier)} {items : List Item}
    (h : WellBound globals outer l [.scope declared items]) :
    WellBound globals (l :: outer) ⟨declared, []⟩ items := by
  constructor
  · exact h.visible.1
  · intro p hp
    apply h.bound
    simp [definitionsOf, Item.definitions, hp]
  · refine (List.Perm.nodup_iff ?_).1 h.nodup
    apply List.Perm.map
    unfold introduced
    apply List.Perm.append_left
    apply List.Perm.map
    rw [List.flatMap_cons, List.flatMap_cons, List.flatMap_cons, Layer.definitions_extend,
      ← List.append_assoc]
    apply List.Perm.append_right
    simp only [definitionsOf, Item.definitions, Layer.definitions, Layer.extend, List.nil_append,
      List.append_nil]
    exact List.perm_append_comm

theorem within {i : Item} (h : WellBound globals outer l [i])
    {declared : List (String × Identifier)} {items : List Item} {layers : List Layer}
    (hi : (Item.scope declared items).Within i layers) :
    WellBound globals (layers ++ l :: outer) ⟨declared, []⟩ items := by
  induction hi generalizing outer l with
  | self => exact h.inner
  | @scope i layers declared' before after _ ih =>
    have hright : WellBound globals (l :: outer) ⟨declared', before⟩ ([i] ++ after) := h.inner.right
    rw [List.append_assoc]
    exact ih hright.left

theorem id_ne {items : List Item} (h : WellBound globals outer l items) {name : String}
    {id : Option Nat} (hid : (name, id) ∈ introduced globals (l :: outer))
    {p : String × Identifier} (hp : p ∈ definitionsOf items) : id ≠ p.2.id := by
  have hnodup := h.nodup
  have hperm : (introduced globals (l.extend items :: outer)).Perm
      (introduced globals (l :: outer) ++ (definitionsOf items).map fun p => (p.1, p.2.id)) := by
    unfold introduced
    rw [List.append_assoc, List.flatMap_cons, List.flatMap_cons, Layer.definitions_extend,
      ← List.map_append]
    apply List.Perm.append_left
    apply List.Perm.map
    rw [List.append_assoc, List.append_assoc]
    apply List.Perm.append_left
    exact List.perm_append_comm
  rw [(hperm.map _).nodup_iff, List.map_append, List.nodup_append] at hnodup
  apply hnodup.2.2
  · exact List.mem_map.2 ⟨(name, id), hid, rfl⟩
  · exact List.mem_map.2 ⟨(p.1, p.2.id), List.mem_map.2 ⟨p, hp, rfl⟩, rfl⟩

theorem name_eq {items : List Item} (h : WellBound globals outer l items) {name₁ name₂ : String}
    {id : Option Nat} (h₁ : (name₁, id) ∈ introduced globals (l :: outer))
    (h₂ : (name₂, id) ∈ introduced globals (l :: outer)) : name₁ = name₂ := by
  have hleft : WellBound globals outer l ([] ++ items) := h
  have hnodup := hleft.left.nodup
  rw [Layer.extend_nil] at hnodup
  have := List.inj_on_of_nodup_map hnodup h₁ h₂ rfl
  exact congrArg Prod.fst this

end WellBound

def freeIn (items : List Item) : Known := fun x =>
  .use x ∈ items ∧ ∀ y, .bind y ∈ items → y.id ≠ x.id

section

variable {globals : List (String × Nat)} {outer : List Layer} {l : Layer}

theorem WellBound.known_or_visible {before after : List Item} {x : Identifier}
    (h : WellBound globals outer l (before ++ .use x :: after)) :
    (∃ y, .bind y ∈ before ∧ x.name = y.name ∧ x.id = y.id) ∨
      (visible? globals (l :: outer) x.name).map Binding.id = some x.id := by
  have hvisible : Resolution.HasVisibleId globals x (l.extend before :: outer) := h.right.visible.1
  rw [Resolution.HasVisibleId, visible?, Layer.definition?_extend] at hvisible
  cases hbefore : before.reverse.findSome? (Item.bound? x.name) with
  | some y =>
    left
    rw [hbefore] at hvisible
    obtain ⟨hmem, hname⟩ := mem_of_findSome?_bound? hbefore
    refine ⟨y, List.mem_reverse.1 hmem, hname.symm, ?_⟩
    exact (Option.some.inj hvisible).symm
  | none =>
    right
    rw [hbefore, Option.none_or] at hvisible
    exact hvisible

theorem visible_of_freeIn {items : List Item} (h : WellBound globals outer l items)
    {x : Identifier} (hx : freeIn items x) :
    (visible? globals (l :: outer) x.name).map Binding.id = some x.id := by
  obtain ⟨before, after, rfl⟩ := List.append_of_mem hx.1
  cases h.known_or_visible with
  | inl hbound =>
    obtain ⟨y, hy, -, hid⟩ := hbound
    exact absurd hid.symm (hx.2 y (List.mem_append_left _ hy))
  | inr hvisible => exact hvisible

theorem WellBound.coherent {items : List Item} (h : WellBound globals outer l items) {K : Known}
    (hK : ∀ x, K x → Resolution.HasVisibleId globals x (l :: outer)) (ids : List Nat) :
    Coherent ids K := by
  intro x y hx hy
  have hvx := hK x hx
  have hvy := hK y hy
  rw [Resolution.HasVisibleId] at hvx hvy
  constructor
  · intro heq
    have hname : x.name = y.name := congrArg Script.Variable.name heq
    rw [hname, hvy] at hvx
    exact (Option.some.inj hvx).symm
  · intro heq
    obtain ⟨a, ha, hxa⟩ := Option.map_eq_some_iff.1 hvx
    obtain ⟨b, hb, hyb⟩ := Option.map_eq_some_iff.1 hvy
    have hma := mem_introduced ha
    have hmb := mem_introduced hb
    rw [hxa, heq] at hma
    rw [hyb] at hmb
    exact x.variable_congr (h.name_eq hma hmb) heq ids

theorem coherent_freeIn {items : List Item} (h : WellBound globals outer l items)
    (ids : List Nat) : Coherent ids (freeIn items) :=
  h.coherent (fun _ hx => visible_of_freeIn h hx) ids

theorem tracked_freeIn {items : List Item} (h : WellBound globals outer l items) {ids : List Nat}
    (hflat : ∀ declared inner, .scope declared inner ∉ items)
    (hids : ∀ y, .bind y ∈ items → ∃ id ∈ ids, y.id = some id) :
    tracked ids (freeIn items) items := by
  -- The induction is on the items that are left; those that were passed stay in the statement.
  suffices hsuffix : ∀ before after, items = before ++ after →
      tracked ids ((freeIn items).after before) after by
    have := hsuffix [] items rfl
    rwa [Known.after_nil] at this
  intro before after heq
  induction after generalizing before with
  | nil => trivial
  | cons i after ih =>
    have hrest := ih (before ++ [i]) (by rw [heq, List.append_assoc, List.singleton_append])
    rw [← Known.after_append] at hrest
    refine ⟨?_, hrest⟩
    cases i with
    | scope declared inner =>
      exfalso
      apply hflat declared inner
      simp [heq]
    | use x =>
      rw [heq] at h
      cases h.known_or_visible with
      | inl hbound => exact .inr hbound
      | inr hvisible =>
        left
        obtain ⟨binding, hbinding, hid⟩ := Option.map_eq_some_iff.1 hvisible
        have hmem := mem_introduced hbinding
        rw [hid] at hmem
        rw [← heq] at h
        refine ⟨by simp [heq], ?_⟩
        intro y hy
        exact (h.id_ne hmem (mem_definitionsOf_bind hy)).symm
    | bind x =>
      have hx : .bind x ∈ items := by simp [heq]
      refine ⟨hids x hx, ?_⟩
      rintro y (hfree | ⟨z, hz, -, hid⟩)
      · exact (hfree.2 x hx).symm
      · rw [hid]
        rw [heq] at h
        have hbefore : .bind z ∈ (l.extend before).before := List.mem_append_right l.before hz
        have hmem : (z.name, z.id) ∈ introduced globals (l.extend before :: outer) :=
          mem_introduced_of_bind globals List.mem_cons_self hbefore
        exact h.right.id_ne hmem (mem_definitionsOf_bind List.mem_cons_self)

/-- The variables that exist inside of layers which declare nothing, where `K` are those around. -/
def knownIn (K : Known) : List Layer → Known
  | [] => K
  | l :: layers => (knownIn K layers).after l.before

variable {K : Known}

theorem knownIn_of_visible {inner : List Layer} (hinner : ∀ l ∈ inner, l.declared = [])
    {x : Identifier} (hx : Resolution.HasVisibleId globals x outer → K x)
    (h : Resolution.HasVisibleId globals x (inner ++ outer)) : knownIn K inner x := by
  induction inner with
  | nil => exact hx h
  | cons l inner ih =>
    have hl : l.definition? x.name = l.before.reverse.findSome? (Item.bound? x.name) := by
      rw [Layer.definition?, hinner l List.mem_cons_self, List.lookup_nil, Option.orElse_eq_orElse,
        Option.orElse_eq_or, Option.or_none]
    rw [Resolution.HasVisibleId, List.cons_append, visible?, hl] at h
    cases hbound : l.before.reverse.findSome? (Item.bound? x.name) with
    | some y =>
      rw [hbound] at h
      obtain ⟨hmem, hname⟩ := mem_of_findSome?_bound? hbound
      exact .inr ⟨y, List.mem_reverse.1 hmem, hname.symm, (Option.some.inj h).symm⟩
    | none =>
      rw [hbound] at h
      exact .inl (ih (fun l hl => hinner l (List.mem_cons_of_mem _ hl)) h)

theorem mem_introduced_of_knownIn (hK : ∀ x, K x → (x.name, x.id) ∈ introduced globals outer)
    {inner : List Layer} {x : Identifier} (h : knownIn K inner x) :
    (x.name, x.id) ∈ introduced globals (inner ++ outer) := by
  induction inner with
  | nil => exact hK x h
  | cons l inner ih =>
    cases h with
    | inl h => exact introduced_subset_cons globals l _ (ih h)
    | inr hbound =>
      obtain ⟨y, hy, hname, hid⟩ := hbound
      rw [hname, hid]
      exact mem_introduced_of_bind globals List.mem_cons_self hy

mutual

theorem Item.tracked_knownIn {ids : List Nat} (inner : List Layer) {l : Layer} (i : Item)
    (hK : ∀ x, K x → (x.name, x.id) ∈ introduced globals outer)
    (h : WellBound globals (inner ++ outer) l [i]) (hinner : ∀ l' ∈ l :: inner, l'.declared = [])
    (hdeclares : ∀ declared, i.Declares declared → declared = [])
    (hids : ∀ p ∈ i.definitions, ∃ id ∈ ids, p.2.id = some id)
    (huses : i.All (fun x _ => Resolution.HasVisibleId globals x outer → K x)
      (l :: (inner ++ outer))) :
    i.Tracked ids (knownIn K (l :: inner)) := by
  match i with
  | .use x => exact knownIn_of_visible hinner huses h.visible.1
  | .bind x =>
    refine ⟨hids (x.name, x) (by simp [Item.definitions]), ?_⟩
    intro y hy
    exact h.id_ne (mem_introduced_of_knownIn hK hy) (mem_definitionsOf_bind List.mem_cons_self)
  | .scope declared items =>
    have hnil := hdeclares declared .self
    subst hnil
    have hitems := tracked_knownIn (l :: inner) items hK h.inner
      (List.forall_mem_cons.2 ⟨rfl, hinner⟩)
      (fun j hj declared hj' => hdeclares declared (.scope hj hj')) hids huses
    rw [knownIn, Known.after_nil] at hitems
    exact hitems

theorem tracked_knownIn {ids : List Nat} (inner : List Layer) {l : Layer} (items : List Item)
    (hK : ∀ x, K x → (x.name, x.id) ∈ introduced globals outer)
    (h : WellBound globals (inner ++ outer) l items)
    (hinner : ∀ l' ∈ l :: inner, l'.declared = [])
    (hdeclares : ∀ i ∈ items, ∀ declared, i.Declares declared → declared = [])
    (hids : ∀ p ∈ definitionsOf items, ∃ id ∈ ids, p.2.id = some id)
    (huses : allItems (fun x _ => Resolution.HasVisibleId globals x outer → K x)
      (inner ++ outer) l items) :
    tracked ids (knownIn K (l :: inner)) items := by
  match items with
  | [] => trivial
  | i :: items =>
    rw [definitionsOf, List.forall_mem_append] at hids
    rw [List.forall_mem_cons] at hdeclares
    have hsplit : WellBound globals (inner ++ outer) l ([i] ++ items) := h
    refine ⟨i.tracked_knownIn inner hK hsplit.left hinner hdeclares.1 hids.1 huses.1, ?_⟩
    rw [List.forall_mem_cons] at hinner
    have hrest := tracked_knownIn inner items hK hsplit.right
      (List.forall_mem_cons.2 hinner) hdeclares.2 hids.2 huses.2
    rw [knownIn, Layer.extend, ← Known.after_append] at hrest
    exact hrest

end

end

end LiterateFun
