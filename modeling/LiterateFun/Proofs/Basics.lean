import Mathlib.Data.List.Perm.Basic

/-!
This module contains facts about lists and about steps with a state or an error that do not depend
on programs.
-/

namespace LiterateFun

section

variable {σ ε α β : Type}

theorem bind_apply (f : StateM σ α) (g : α → StateM σ β) (s : σ) :
    (f >>= g) s = g (f s).1 (f s).2 :=
  rfl

theorem pure_apply (a : α) (s : σ) : (pure a : StateM σ α) s = (a, s) :=
  rfl

theorem get_apply (s : σ) : (get : StateM σ σ) s = (s, s) :=
  rfl

theorem exists_of_bind_eq_ok {x : Except ε α} {f : α → Except ε β} {b : β} (h : x >>= f = .ok b) :
    ∃ a, x = .ok a ∧ f a = .ok b := by
  cases x with
  | error e => cases h
  | ok a => exact ⟨a, rfl, h⟩

end

section

variable {α β γ : Type} {l : List α}

theorem map_eq_self {f : α → α} (h : ∀ a ∈ l, f a = a) : l.map f = l := by
  rw [List.map_congr_left h]
  exact List.map_id' l

theorem takeWhile_eq_nil_of_head? {p : α → Bool} (h : ∀ a ∈ l.head?, ¬p a) :
    l.takeWhile p = [] := by
  cases l with
  | nil => rfl
  | cons a l => exact List.takeWhile_cons_of_neg (h a rfl)

theorem not_prefix_of_prefix {u v : List α} (h : u <+: l) (huv : ¬u <+: v) (hvu : ¬v <+: u) :
    ¬v <+: l := by
  intro hv
  cases List.prefix_or_prefix_of_prefix h hv with
  | inl h => exact huv h
  | inr h => exact hvu h

theorem perm_append_append_comm (as bs cs ds : List α) :
    ((as ++ bs) ++ (cs ++ ds)).Perm ((as ++ cs) ++ (bs ++ ds)) := by
  rw [List.append_assoc, List.append_assoc, ← List.append_assoc bs, ← List.append_assoc cs]
  exact (List.perm_append_comm.append_right ds).append_left as

theorem exists_perm_of_perm_map {f : α → β} {bs : List β} (h : bs.Perm (l.map f)) :
    ∃ as : List α, as.Perm l ∧ bs = as.map f := by
  obtain ⟨as, hmap, hperm⟩ := (congrFun₂ (List.eq_map_comp_perm f) bs l).mpr h
  exact ⟨as, hperm, hmap⟩

theorem nodup_eraseDups [BEq α] [LawfulBEq α] (l : List α) : l.eraseDups.Nodup := by
  match l with
  | [] => exact List.nodup_nil
  | a :: l =>
    rw [List.eraseDups_cons, List.nodup_cons]
    refine ⟨?_, nodup_eraseDups _⟩
    simp [List.mem_eraseDups]
termination_by l.length
decreasing_by
  have := List.length_filter_le (fun b => !b == a) l
  rw [List.length_cons]
  omega

theorem head?_eq_some_iff_of_pairwise {R : α → α → Prop} (hR : ∀ a b, R a b → ¬R b a)
    (h : l.Pairwise R) {a : α} : l.head? = some a ↔ a ∈ l ∧ ∀ b ∈ l, ¬R b a := by
  cases l with
  | nil => simp
  | cons c l =>
    have hfirst := (List.pairwise_cons.1 h).1
    constructor
    · rintro ⟨⟩
      refine ⟨List.mem_cons_self, List.forall_mem_cons.2 ⟨fun haa => hR a a haa haa, ?_⟩⟩
      intro b hb
      exact hR a b (hfirst b hb)
    · rintro ⟨ha, hleast⟩
      rcases List.mem_cons.1 ha with rfl | ha
      · rfl
      · exact absurd (hfirst a ha) (hleast c List.mem_cons_self)

variable {f : α → Option β} {i : Nat} {b : β}

theorem findSome?_eq_some_iff_getElem? : l.findSome? f = some b ↔
    ∃ (j : Nat) (a : α), l[j]? = some a ∧ f a = some b ∧
      ∀ (k : Nat) (a' : α), k < j → l[k]? = some a' → f a' = none := by
  rw [List.findSome?_eq_some_iff]
  constructor
  · rintro ⟨l₁, a, l₂, rfl, ha, hnone⟩
    refine ⟨l₁.length, a, by simp, ha, ?_⟩
    intro k a' hk ha'
    rw [List.getElem?_append_left hk] at ha'
    exact hnone a' (List.mem_of_getElem? ha')
  · rintro ⟨j, a, hj, ha, hnone⟩
    obtain ⟨hlt, rfl⟩ := List.getElem?_eq_some_iff.1 hj
    refine ⟨l.take j, _, l.drop (j + 1), ?_, ha, ?_⟩
    · rw [← List.drop_eq_getElem_cons hlt, List.take_append_drop]
    · intro a' ha'
      obtain ⟨k, hk⟩ := List.mem_iff_getElem?.1 ha'
      rw [List.getElem?_take, Option.ite_none_right_eq_some] at hk
      exact hnone k a' hk.1 hk.2

theorem findSome?_filterMap (f : α → Option β) (g : β → Option γ) (l : List α) :
    (l.filterMap f).findSome? g = l.findSome? fun a => (f a).bind g := by
  rw [← List.head?_filterMap, List.filterMap_filterMap, List.head?_filterMap]

theorem mem_filterMap_iff_getElem? : b ∈ l.filterMap f ↔ ∃ k : Nat, l[k]?.bind f = some b := by
  rw [List.mem_filterMap]
  constructor
  · rintro ⟨a, ha, hb⟩
    obtain ⟨k, hk⟩ := List.mem_iff_getElem?.1 ha
    exact ⟨k, Option.bind_eq_some_iff.2 ⟨a, hk, hb⟩⟩
  · rintro ⟨k, hk⟩
    obtain ⟨a, ha, hb⟩ := Option.bind_eq_some_iff.1 hk
    exact ⟨a, List.mem_of_getElem? ha, hb⟩

theorem filterMap_eq_of_getElem? {g : γ → Option β} {l' : List γ}
    (h : ∀ k : Nat, l[k]?.map f = l'[k]?.map g) : l.filterMap f = l'.filterMap g := by
  have hmap : l.map f = l'.map g := by
    apply List.ext_getElem?
    intro k
    rw [List.getElem?_map, List.getElem?_map, h]
  rw [← Function.id_comp f, ← Function.id_comp g, ← List.filterMap_map, ← List.filterMap_map, hmap]

theorem findSome?_drop_eq_some_iff : (l.drop i).findSome? f = some b ↔
    ∃ j a, i ≤ j ∧ l[j]? = some a ∧ f a = some b ∧
      ∀ k a', i ≤ k → k < j → l[k]? = some a' → f a' = none := by
  rw [findSome?_eq_some_iff_getElem?]
  simp only [List.getElem?_drop]
  constructor
  · rintro ⟨j, a, hj, ha, hnone⟩
    refine ⟨i + j, a, Nat.le_add_right i j, hj, ha, ?_⟩
    intro k a' hik hkj hk
    apply hnone (k - i) a' (by omega)
    rwa [Nat.add_sub_of_le hik]
  · rintro ⟨j, a, hij, hj, ha, hnone⟩
    refine ⟨j - i, a, ?_, ha, ?_⟩
    · rwa [Nat.add_sub_of_le hij]
    · intro k a' hk
      exact hnone (i + k) a' (Nat.le_add_right i k) (by omega)

theorem findSome?_reverse_take_eq_some_iff : (l.take i).reverse.findSome? f = some b ↔
    ∃ j a, j < i ∧ l[j]? = some a ∧ f a = some b ∧
      ∀ k a', j < k → k < i → l[k]? = some a' → f a' = none := by
  induction i with
  | zero => simp
  | succ i ih =>
    -- Going up, the element at the end of the longer list comes first.
    rw [List.take_add_one, List.reverse_append, List.findSome?_append, Option.or_eq_some_iff, ih]
    cases h : l[i]? with
    | none =>
      simp only [Option.toList_none, List.reverse_nil, List.findSome?_nil]
      grind
    | some a =>
      simp only [Option.toList_some, List.reverse_singleton, List.findSome?_singleton]
      grind

end

end LiterateFun
