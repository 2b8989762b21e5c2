import Mathlib.Data.List.Perm.Basic

/-!
This module contains lexical scopes as trees, with the declarations of a scope, what is used in it,
and the scopes in it. A use finds the declaration of its text in the innermost scope that has one.
-/

namespace LiterateFun

def Matching {α β : Type} (R : α → β → Prop) (as : List α) (bs : List β) : Prop :=
  ∃ matched, List.Forall₂ R as matched ∧ matched.Perm bs

namespace Matching

variable {α β : Type} {R : α → β → Prop}

theorem nil : Matching R [] [] :=
  ⟨[], .nil, .nil⟩

theorem singleton {a : α} {b : β} (h : R a b) : Matching R [a] [b] :=
  ⟨[b], .cons h .nil, .refl _⟩

theorem perm {as : List α} {bs₁ bs₂ : List β} (h : Matching R as bs₁) (hperm : bs₁.Perm bs₂) :
    Matching R as bs₂ := by
  obtain ⟨matched, hmatched, horder⟩ := h
  exact ⟨matched, hmatched, horder.trans hperm⟩

theorem append {as₁ as₂ : List α} {bs₁ bs₂ : List β} (h₁ : Matching R as₁ bs₁)
    (h₂ : Matching R as₂ bs₂) : Matching R (as₁ ++ as₂) (bs₁ ++ bs₂) := by
  obtain ⟨matched₁, hmatched₁, horder₁⟩ := h₁
  obtain ⟨matched₂, hmatched₂, horder₂⟩ := h₂
  exact ⟨matched₁ ++ matched₂, List.rel_append hmatched₁ hmatched₂, horder₁.append horder₂⟩

end Matching

inductive Region (α : Type)
  | mk (declared used : List α) (inner : List (Region α))

namespace Region

variable {α : Type}

def declared : Region α → List α
  | .mk declared _ _ => declared

def used : Region α → List α
  | .mk _ used _ => used

def inner : Region α → List (Region α)
  | .mk _ _ inner => inner

/-- The last scope on a way into the tree, and all scopes around it from the innermost on. -/
inductive Nested (root : Region α) : List (Region α) → Prop
  | root : Nested root [root]
  | inner {r s : Region α} {around : List (Region α)} (h : Nested root (r :: around))
      (hs : s ∈ r.inner) : Nested root (s :: r :: around)

def Together (root : Region α) (a b : α) : Prop :=
  ∃ way, Nested root way ∧ a ∈ (way.map declared).flatten ∧ b ∈ (way.map declared).flatten

/--
The declaration that a text finds in some lists of declarations, of which the first has priority.
-/
def find? (text : α → String) (scopes : List (List α)) (t : String) : Option α :=
  scopes.findSome? fun declared => declared.find? fun a => text a = t

theorem text_eq_of_find? {text : α → String} {declared : List α} {t : String} {a : α}
    (h : declared.find? (fun a => text a = t) = some a) : text a = t := by
  simpa using List.find?_some h

mutual

/-- A property of all ways into the tree, where some scopes are around the tree itself. -/
def All (P : List (Region α) → Prop) (around : List (Region α)) : Region α → Prop
  | .mk declared used inner =>
    P (.mk declared used inner :: around) ∧ allRegions P (.mk declared used inner :: around) inner

def allRegions (P : List (Region α) → Prop) (around : List (Region α)) : List (Region α) → Prop
  | [] => True
  | r :: rs => r.All P around ∧ allRegions P around rs

end

variable {P : List (Region α) → Prop} {around : List (Region α)}

theorem allRegions_append {rs₁ rs₂ : List (Region α)} :
    allRegions P around (rs₁ ++ rs₂) ↔ allRegions P around rs₁ ∧ allRegions P around rs₂ := by
  induction rs₁ with
  | nil => simp [allRegions]
  | cons r rs₁ ih => rw [List.cons_append, allRegions, allRegions, ih, and_assoc]

theorem allRegions_singleton {r : Region α} : allRegions P around [r] ↔ r.All P around := by
  simp [allRegions]

theorem all_of_mem {rs : List (Region α)} (h : allRegions P around rs) {r : Region α}
    (hr : r ∈ rs) : r.All P around := by
  induction rs with
  | nil => cases hr
  | cons s rs ih =>
    cases hr with
    | head => exact h.1
    | tail _ hr => exact ih h.2 hr

theorem All.here {r : Region α} (h : r.All P around) : P (r :: around) := by
  cases r with
  | mk declared used inner => exact h.1

theorem All.inner {r s : Region α} (h : r.All P around) (hs : s ∈ r.inner) :
    s.All P (r :: around) := by
  cases r with
  | mk declared used inner => exact all_of_mem h.2 hs

theorem All.nested {root : Region α} (h : root.All P []) {way : List (Region α)}
    (hway : Nested root way) : P way := by
  -- The induction is on the way; what it has reached still has the property further on.
  have hreached : ∀ {way}, Nested root way → ∀ r around, way = r :: around → r.All P around := by
    intro way hway
    induction hway with
    | root =>
      rintro r around ⟨⟩
      exact h
    | inner _ hs ih =>
      rintro r around ⟨⟩
      exact (ih _ _ rfl).inner hs
  cases hway with
  | root => exact h.here
  | inner hway hs => exact (hreached (.inner hway hs) _ _ rfl).here

mutual

theorem all_of_nested {root : Region α} (h : ∀ way, Nested root way → P way) (r : Region α)
    {around : List (Region α)} (hr : Nested root (r :: around)) : r.All P around := by
  match r with
  | .mk declared used inner =>
    exact ⟨h _ hr, allRegions_of_nested h inner fun s hs => .inner hr hs⟩

theorem allRegions_of_nested {root : Region α} (h : ∀ way, Nested root way → P way)
    (rs : List (Region α)) {around : List (Region α)}
    (hrs : ∀ r ∈ rs, Nested root (r :: around)) : allRegions P around rs := by
  match rs with
  | [] => trivial
  | r :: rs =>
    rw [List.forall_mem_cons] at hrs
    exact ⟨all_of_nested h r hrs.1, allRegions_of_nested h rs hrs.2⟩

end

mutual

def allDeclared : Region α → List α
  | .mk declared _ inner => declared ++ allDeclaredIn inner

def allDeclaredIn : List (Region α) → List α
  | [] => []
  | r :: rs => r.allDeclared ++ allDeclaredIn rs

end

theorem allDeclaredIn_eq_flatMap (rs : List (Region α)) :
    allDeclaredIn rs = rs.flatMap allDeclared := by
  induction rs with
  | nil => rfl
  | cons r rs ih => rw [allDeclaredIn, ih, List.flatMap_cons]

theorem allDeclaredIn_append (rs₁ rs₂ : List (Region α)) :
    allDeclaredIn (rs₁ ++ rs₂) = allDeclaredIn rs₁ ++ allDeclaredIn rs₂ := by
  simp only [allDeclaredIn_eq_flatMap, List.flatMap_append]

theorem allDeclared_sublist {r : Region α} {rs : List (Region α)} (h : r ∈ rs) :
    r.allDeclared.Sublist (allDeclaredIn rs) := by
  obtain ⟨rs₁, rs₂, rfl⟩ := List.append_of_mem h
  rw [allDeclaredIn_append, allDeclaredIn]
  exact (List.sublist_append_left _ _).trans (List.sublist_append_right _ _)

theorem allDeclared_eq (r : Region α) : r.allDeclared = r.declared ++ allDeclaredIn r.inner := by
  cases r
  rfl

theorem Nested.declared_subperm {root : Region α} {way : List (Region α)} (h : Nested root way) :
    (way.map declared).flatten.Subperm root.allDeclared := by
  -- What the last scope of the way has in it is still to come.
  have hreached : ∀ {way}, Nested root way → ∀ r around, way = r :: around →
      ((around.map declared).flatten ++ r.allDeclared).Subperm root.allDeclared := by
    intro way hway
    induction hway with
    | root =>
      rintro r around ⟨⟩
      exact List.Subperm.refl _
    | @inner r s around _ hs ih =>
      rintro _ _ ⟨⟩
      refine List.Subperm.trans ?_ (ih _ _ rfl)
      rw [List.map_cons, List.flatten_cons, allDeclared_eq r, ← List.append_assoc]
      exact List.perm_append_comm.append_right _ |>.subperm.trans
        ((allDeclared_sublist hs).append_left _).subperm
  cases way with
  | nil => exact List.nil_subperm
  | cons r around =>
    refine List.Subperm.trans ?_ (hreached h r around rfl)
    rw [List.map_cons, List.flatten_cons, allDeclared_eq r]
    refine List.perm_append_comm.subperm.trans ?_
    exact ((List.sublist_append_left _ _).append_left _).subperm

/--
The second tree has the texts of the first one. Declarations and inner scopes can stand in another
order, and it does not count how often something is used.
-/
inductive Spells (text : α → String) : Region α → Region String → Prop
  | mk {declared used : List α} {declared' used' : List String} {inner : List (Region α)}
      {spelled inner' : List (Region String)} (hdeclared : (declared.map text).Perm declared')
      (hused : ∀ t, t ∈ used.map text ↔ t ∈ used')
      (hinner : List.Forall₂ (Spells text) inner spelled) (horder : spelled.Perm inner') :
      Spells text (.mk declared used inner) (.mk declared' used' inner')

def SpellsAll (text : α → String) (rs : List (Region α)) (rs' : List (Region String)) : Prop :=
  ∃ spelled, List.Forall₂ (Spells text) rs spelled ∧ spelled.Perm rs'

variable {text : α → String}

theorem spellsAll_nil : SpellsAll text [] [] :=
  Matching.nil

theorem spellsAll_singleton {r : Region α} {r' : Region String} (h : Spells text r r') :
    SpellsAll text [r] [r'] :=
  Matching.singleton h

theorem SpellsAll.perm {rs : List (Region α)} {rs₁ rs₂ : List (Region String)}
    (h : SpellsAll text rs rs₁) (hperm : rs₁.Perm rs₂) : SpellsAll text rs rs₂ :=
  Matching.perm h hperm

theorem SpellsAll.append {rs₁ rs₂ : List (Region α)} {rs₁' rs₂' : List (Region String)}
    (h₁ : SpellsAll text rs₁ rs₁') (h₂ : SpellsAll text rs₂ rs₂') :
    SpellsAll text (rs₁ ++ rs₂) (rs₁' ++ rs₂') :=
  Matching.append h₁ h₂

theorem SpellsAll.exists_of_mem {rs : List (Region α)} {rs' : List (Region String)}
    (h : SpellsAll text rs rs') {r' : Region String} (hr' : r' ∈ rs') :
    ∃ r ∈ rs, Spells text r r' := by
  obtain ⟨spelled, hspelled, horder⟩ := h
  have hmem := horder.mem_iff.2 hr'
  clear horder
  induction hspelled with
  | nil => cases hmem
  | cons hr _ ih =>
    cases hmem with
    | head => exact ⟨_, List.mem_cons_self, hr⟩
    | tail _ hmem =>
      obtain ⟨r, hr, hspells⟩ := ih hmem
      exact ⟨r, List.mem_cons_of_mem _ hr, hspells⟩

theorem Spells.declared {r : Region α} {r' : Region String} (h : Spells text r r') :
    (r.declared.map text).Perm r'.declared := by
  cases h with
  | mk hdeclared _ _ _ => exact hdeclared

theorem Spells.inner {r : Region α} {r' : Region String} (h : Spells text r r') :
    SpellsAll text r.inner r'.inner := by
  cases h with
  | mk _ _ hinner horder => exact ⟨_, hinner, horder⟩

theorem Spells.nested {root : Region α} {root' : Region String} (h : Spells text root root')
    {way' : List (Region String)} (hway : Nested root' way') :
    ∃ way, Nested root way ∧ List.Forall₂ (Spells text) way way' := by
  induction hway with
  | root => exact ⟨[root], .root, .cons h .nil⟩
  | inner _ hs ih =>
    obtain ⟨way, hway, hspells⟩ := ih
    cases hspells with
    | cons hr haround =>
      obtain ⟨s, hs, hspells⟩ := hr.inner.exists_of_mem hs
      exact ⟨_, .inner hway hs, .cons hspells (.cons hr haround)⟩

theorem Spells.mem_declared {r : Region α} {r' : Region String} (h : Spells text r r')
    {t : String} : t ∈ r'.declared ↔ ∃ a ∈ r.declared, text a = t := by
  rw [← h.declared.mem_iff, List.mem_map]

theorem exists_findIdx?_of_find? {way : List (Region α)} {way' : List (Region String)}
    (h : List.Forall₂ (Spells text) way way') {t : String} {a : α}
    (hfind : find? text (way.map Region.declared) t = some a) :
    ∃ n r, way'.findIdx? (fun r' => t ∈ r'.declared) = some n ∧ way[n]? = some r ∧
      a ∈ r.declared ∧ text a = t := by
  induction h with
  | nil => cases hfind
  | @cons r r' way way' hr _ ih =>
    rw [find?, List.map_cons, List.findSome?_cons] at hfind
    rw [List.findIdx?_cons]
    cases hhere : r.declared.find? (fun a => text a = t) with
    | some b =>
      rw [hhere] at hfind
      cases hfind
      have htext := text_eq_of_find? hhere
      have hmem := List.mem_of_find?_eq_some hhere
      rw [if_pos (decide_eq_true (hr.mem_declared.2 ⟨a, hmem, htext⟩))]
      exact ⟨0, r, rfl, rfl, hmem, htext⟩
    | none =>
      rw [hhere] at hfind
      have hnone : t ∉ r'.declared := by
        rw [hr.mem_declared]
        rintro ⟨b, hb, htext⟩
        exact List.find?_eq_none.1 hhere b hb (decide_eq_true htext)
      obtain ⟨n, s, hn, hs, ha⟩ := ih hfind
      rw [if_neg (by simpa using hnone), hn]
      exact ⟨n + 1, s, rfl, hs, ha⟩

mutual

theorem Spells.allDeclared_perm (r : Region α) {r' : Region String} (h : Spells text r r') :
    (r.allDeclared.map text).Perm r'.allDeclared := by
  match r, h with
  | .mk declared used inner, .mk hdeclared _ hinner horder =>
    rw [allDeclared, allDeclared, List.map_append]
    refine hdeclared.append ((allDeclaredIn_perm inner hinner).trans ?_)
    rw [allDeclaredIn_eq_flatMap, allDeclaredIn_eq_flatMap]
    exact horder.flatMap_right _

theorem allDeclaredIn_perm (rs : List (Region α)) {rs' : List (Region String)}
    (h : List.Forall₂ (Spells text) rs rs') :
    ((allDeclaredIn rs).map text).Perm (allDeclaredIn rs') := by
  match rs, h with
  | [], .nil => exact .nil
  | r :: rs, .cons hr hrs =>
    rw [allDeclaredIn, allDeclaredIn, List.map_append]
    exact (Spells.allDeclared_perm r hr).append (allDeclaredIn_perm rs hrs)

end

end Region

end LiterateFun
