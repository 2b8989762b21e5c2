import LiterateFun.Proofs.ScopeTree
import LiterateFun.Proofs.Subexpressions
import Mathlib.Data.List.Forall2
import Mathlib.Data.List.Nodup

/-!
This module contains the correctness of name resolution. A step of resolution that goes through some
items of the scope tree succeeds if and only if every reference among them has a visible binding and
no name is declared twice, and then it gives every reference the id of its visible binding.
-/

namespace LiterateFun

/-- The binding of a name in a scope. A reservation is none. -/
def Scope.id? (s : Scope) (name : String) : Option Nat :=
  match s.find? name with
  | some (.bound id) => some id
  | _ => none

theorem Scope.find?_cons (s : Scope) (name other : String) (e : Entry) :
    Scope.find? ((name, e) :: s) other = if other = name then some e else s.find? other := by
  unfold Scope.find?
  rw [List.lookup_cons]
  by_cases h : other = name
  · rw [if_pos h, h, beq_self_eq_true]
  · rw [if_neg h, beq_false_of_ne h]

theorem Scope.id?_bind (s : Scope) (name other : String) (id : Nat) :
    (s.bind name id).id? other = if other = name then some id else s.id? other := by
  unfold Scope.id? Scope.bind
  rw [Scope.find?_cons]
  by_cases h : other = name
  · rw [if_pos h, if_pos h]
  · rw [if_neg h, if_neg h]

theorem Scope.id?_reserve (s : Scope) (name other : String) :
    (s.reserve name).id? other = s.id? other := by
  unfold Scope.reserve
  split
  · rfl
  next h =>
    unfold Scope.id?
    rw [Scope.find?_cons]
    by_cases hname : other = name
    · rw [Option.not_isSome_iff_eq_none, ← hname] at h
      rw [if_pos hname, h]
    · rw [if_neg hname]

theorem Scope.isBound_eq_isSome_id? (s : Scope) (name : String) :
    s.isBound name = (s.id? name).isSome := by
  unfold Scope.isBound Scope.id?
  cases s.find? name with
  | none => rfl
  | some e => cases e <;> rfl

theorem Surroundings.innermost?_cons (s : Scope) (scopes : List Scope) (name : String) :
    innermost? (s :: scopes) name = (s.id? name).or (innermost? scopes name) := by
  unfold innermost?
  rw [List.findSome?_cons]
  unfold Scope.id?
  cases s.find? name with
  | none => rfl
  | some e => cases e <;> rfl

theorem Layer.definition?_extend_singleton (l : Layer) (i : Item) (name : String) :
    (l.extend [i]).definition? name = (i.bound? name).or (l.definition? name) := by
  unfold Layer.definition? Layer.extend
  rw [List.reverse_append, List.reverse_singleton, List.singleton_append, List.findSome?_cons]
  cases i.bound? name <;> rfl

namespace Resolution

def Represents (l : Layer) (s : Scope) : Prop :=
  ∀ name, (l.definition? name).map Identifier.id = (s.id? name).map some

theorem Represents.id_visible? {l : Layer} {outer : List Layer} {s : Scope}
    {around : Surroundings} (h : Represents l s)
    (houter : List.Forall₂ Represents outer around.scopes) (name : String) :
    (visible? around.globals (l :: outer) name).map Binding.id =
      (around.find? s name).map some := by
  unfold Surroundings.find?
  generalize hall : l :: outer = layers
  generalize hscopes : s :: around.scopes = scopes
  have hforall : List.Forall₂ Represents layers scopes := by
    rw [← hall, ← hscopes]
    exact .cons h houter
  clear hall hscopes h houter
  induction hforall with
  | nil =>
    rw [visible?]
    cases around.globals.lookup name <;> rfl
  | @cons l s layers scopes h _ ih =>
    rw [visible?, Surroundings.innermost?_cons]
    have hl := h name
    cases hd : l.definition? name with
    | none =>
      rw [hd] at hl
      cases hs : s.id? name with
      | none => simpa using ih
      | some id =>
        rw [hs] at hl
        cases hl
    | some x =>
      rw [hd] at hl
      cases hs : s.id? name with
      | none =>
        rw [hs] at hl
        cases hl
      | some id =>
        rw [hs] at hl
        simpa [Binding.id] using hl

theorem Represents.extend {l : Layer} {s : Scope} (h : Represents l s) {i : Item}
    (hi : ∀ name, i.bound? name = none) : Represents (l.extend [i]) s := by
  intro name
  rw [Layer.definition?_extend_singleton, hi, Option.none_or, h name]

theorem represents_nil : Represents ⟨[], []⟩ [] := by
  intro name
  rfl

/-- The definitions have the ids from `first` up to `next`, each once. -/
structure Numbered (first next : Nat) (definitions : List (String × Identifier)) : Prop where
  le : first ≤ next
  perm : (definitions.map fun p => p.2.id).Perm ((List.range' first (next - first)).map some)

theorem numbered_nil (n : Nat) : Numbered n n [] := by
  constructor
  · apply Nat.le_refl
  · rw [Nat.sub_self]
    exact .nil

theorem numbered_singleton (n : Nat) (name : String) (x : Identifier) (h : x.id = some n) :
    Numbered n (n + 1) [(name, x)] := by
  constructor
  · apply Nat.le_succ
  · rw [Nat.add_sub_cancel_left]
    simp [h]

theorem Numbered.append {a b c : Nat} {definitions₁ definitions₂ : List (String × Identifier)}
    (h₁ : Numbered a b definitions₁) (h₂ : Numbered b c definitions₂) :
    Numbered a c (definitions₁ ++ definitions₂) := by
  have hab := h₁.le
  have hbc := h₂.le
  constructor
  · omega
  · have hrange : List.range' a (c - a) = List.range' a (b - a) ++ List.range' b (c - b) := by
      have happend := List.range'_append_1 (s := a) (m := b - a) (n := c - b)
      rw [Nat.add_sub_cancel' hab] at happend
      rw [happend]
      congr 1
      omega
    rw [List.map_append, hrange, List.map_append]
    exact h₁.perm.append h₂.perm

theorem Numbered.nodup {a b : Nat} {definitions : List (String × Identifier)}
    (h : Numbered a b definitions) : (definitions.map fun p => p.2.id).Nodup := by
  rw [h.perm.nodup_iff]
  apply List.Nodup.map
  · exact fun _ _ h => Option.some.inj h
  · exact List.nodup_range'

theorem Numbered.exists_id {a b : Nat} {definitions : List (String × Identifier)}
    (h : Numbered a b definitions) {p : String × Identifier} (hp : p ∈ definitions) :
    ∃ id, p.2.id = some id ∧ a ≤ id ∧ id < b := by
  have hmem : p.2.id ∈ (List.range' a (b - a)).map some := by
    rw [← h.perm.mem_iff]
    exact List.mem_map_of_mem hp
  obtain ⟨id, hid, heq⟩ := List.mem_map.1 hmem
  rw [List.mem_range'_1] at hid
  have := h.le
  exact ⟨id, heq.symm, hid.1, by omega⟩

def Distinct (items : List Item) : Prop :=
  ∀ i ∈ items, ∀ declared, i.Declares declared → (declared.map Prod.fst).Nodup

theorem distinct_append {items₁ items₂ : List Item} :
    Distinct (items₁ ++ items₂) ↔ Distinct items₁ ∧ Distinct items₂ := by
  simp only [Distinct, List.mem_append]
  constructor
  · intro h
    exact ⟨fun i hi => h i (.inl hi), fun i hi => h i (.inr hi)⟩
  · rintro ⟨h₁, h₂⟩ i (hi | hi)
    · exact h₁ i hi
    · exact h₂ i hi

theorem distinct_scope {declared : List (String × Identifier)} {items : List Item} :
    Distinct [.scope declared items] ↔ (declared.map Prod.fst).Nodup ∧ Distinct items := by
  simp only [Distinct, List.mem_singleton, forall_eq, Item.declares_scope_iff]
  constructor
  · intro h
    exact ⟨h _ (.inl rfl), fun i hi inner hinner => h inner (.inr ⟨i, hi, hinner⟩)⟩
  · rintro ⟨hdeclared, hitems⟩ inner (rfl | ⟨i, hi, hinner⟩)
    · exact hdeclared
    · exact hitems i hi inner hinner

def HasBinding (globals : List (String × Nat)) (x : Identifier) (layers : List Layer) : Prop :=
  (visible? globals layers x.name).isSome

def HasVisibleId (globals : List (String × Nat)) (x : Identifier) (layers : List Layer) : Prop :=
  (visible? globals layers x.name).map Binding.id = some x.id

structure Acceptable (globals : List (String × Nat)) (es : List Expr) (outer : List Layer)
    (l : Layer) (items : List Item) : Prop where
  assignable : Assignable es
  distinct : Distinct items
  visible : allItems (HasBinding globals) outer l items

/-- The state stands for a point of the scope tree that was reached without a failure. -/
structure StandsFor (s : State) (around : Surroundings) (l : Layer) (outer : List Layer) :
    Prop where
  running : s.failure = none
  scope : Represents l s.scope
  scopes : List.Forall₂ Represents outer around.scopes

structure Bound (globals : List (String × Nat)) (s t : State) (outer : List Layer) (l : Layer)
    (items bound : List Item) : Prop where
  same : relabelItems Identifier.forgetId bound = relabelItems Identifier.forgetId items
  scope : Represents (l.extend bound) t.scope
  visible : allItems (HasVisibleId globals) outer l bound
  numbered : Numbered s.nextId t.nextId (definitionsOf bound)

/-- A step of resolution that goes through items, of which `out` tells what became of them. -/
structure Resolves (around : Surroundings) (es : List Expr) (items : List Item) (f : Step α)
    (out : α → List Item) : Prop where
  stops : ∀ s, s.failure.isSome → (f s).2 = s
  grows : ∀ s, s.nextId ≤ (f s).2.nextId
  succeeds_iff : ∀ s l outer, StandsFor s around l outer →
    ((f s).2.failure = none ↔ Acceptable around.globals es outer l items)
  bound : ∀ s l outer, StandsFor s around l outer → (f s).2.failure = none →
    Bound around.globals s (f s).2 outer l items (out (f s).1)

theorem hasBinding_congr {globals : List (String × Nat)} {layers₁ layers₂ : List Layer}
    (h : layers₁.map (Layer.relabel Identifier.forgetId) =
      layers₂.map (Layer.relabel Identifier.forgetId)) (x : Identifier) (inner : List Layer) :
    HasBinding globals x (inner ++ layers₁) ↔ HasBinding globals x (inner ++ layers₂) := by
  unfold HasBinding
  rw [← isSome_visible?_relabel Identifier.name_forgetId globals (inner ++ layers₁),
    ← isSome_visible?_relabel Identifier.name_forgetId globals (inner ++ layers₂),
    List.map_append, List.map_append, h]

theorem allItems_hasBinding_congr {globals : List (String × Nat)} {outer : List Layer}
    {l₁ l₂ : Layer} {items : List Item}
    (h : l₁.relabel Identifier.forgetId = l₂.relabel Identifier.forgetId) :
    allItems (HasBinding globals) outer l₁ items ↔
      allItems (HasBinding globals) outer l₂ items := by
  rw [allItems_iff, allItems_iff]
  have hextend : ∀ before, (l₁.extend before :: outer).map (Layer.relabel Identifier.forgetId) =
      (l₂.extend before :: outer).map (Layer.relabel Identifier.forgetId) := by
    intro before
    simp only [Layer.relabel, Layer.mk.injEq] at h
    simp only [List.map_cons, Layer.relabel, Layer.extend, relabelItems_append, h]
  constructor
  · intro hall before i after heq x inner hx
    rw [← hasBinding_congr (hextend before)]
    exact hall before i after heq x inner hx
  · intro hall before i after heq x inner hx
    rw [hasBinding_congr (hextend before)]
    exact hall before i after heq x inner hx

theorem acceptable_congr {globals : List (String × Nat)} {es es' : List Expr} {outer : List Layer}
    {l : Layer} {items : List Item} (h : Assignable es ↔ Assignable es') :
    Acceptable globals es outer l items ↔ Acceptable globals es' outer l items := by
  constructor
  · rintro ⟨hassignable, hdistinct, hvisible⟩
    exact ⟨h.1 hassignable, hdistinct, hvisible⟩
  · rintro ⟨hassignable, hdistinct, hvisible⟩
    exact ⟨h.2 hassignable, hdistinct, hvisible⟩

theorem acceptable_append {globals : List (String × Nat)} {es₁ es₂ : List Expr}
    {outer : List Layer} {l : Layer} {items₁ items₂ bound : List Item}
    (h : relabelItems Identifier.forgetId bound = relabelItems Identifier.forgetId items₁) :
    Acceptable globals (es₁ ++ es₂) outer l (items₁ ++ items₂) ↔
      Acceptable globals es₁ outer l items₁ ∧
        Acceptable globals es₂ outer (l.extend bound) items₂ := by
  have hlayer : (l.extend bound).relabel Identifier.forgetId =
      (l.extend items₁).relabel Identifier.forgetId := by
    simp only [Layer.relabel, Layer.extend, relabelItems_append, h]
  constructor
  · rintro ⟨hassignable, hdistinct, hvisible⟩
    rw [assignable_append] at hassignable
    rw [distinct_append] at hdistinct
    rw [allItems_append, ← allItems_hasBinding_congr hlayer] at hvisible
    exact ⟨⟨hassignable.1, hdistinct.1, hvisible.1⟩, ⟨hassignable.2, hdistinct.2, hvisible.2⟩⟩
  · rintro ⟨h₁, h₂⟩
    constructor
    · rw [assignable_append]
      exact ⟨h₁.assignable, h₂.assignable⟩
    · rw [distinct_append]
      exact ⟨h₁.distinct, h₂.distinct⟩
    · rw [allItems_append, ← allItems_hasBinding_congr hlayer]
      exact ⟨h₁.visible, h₂.visible⟩

theorem Bound.append {globals : List (String × Nat)} {s t u : State} {outer : List Layer}
    {l : Layer} {items₁ items₂ bound₁ bound₂ : List Item}
    (h₁ : Bound globals s t outer l items₁ bound₁)
    (h₂ : Bound globals t u outer (l.extend bound₁) items₂ bound₂) :
    Bound globals s u outer l (items₁ ++ items₂) (bound₁ ++ bound₂) := by
  constructor
  · rw [relabelItems_append, relabelItems_append, h₁.same, h₂.same]
  · rw [← Layer.extend_extend]
    exact h₂.scope
  · rw [allItems_append]
    exact ⟨h₁.visible, h₂.visible⟩
  · rw [definitionsOf_append]
    exact h₁.numbered.append h₂.numbered

theorem Bound.standsFor {globals : List (String × Nat)} {s t : State} {around : Surroundings}
    {outer : List Layer} {l : Layer} {items bound : List Item}
    (h : Bound globals s t outer l items bound) (hs : StandsFor s around l outer)
    (ht : t.failure = none) : StandsFor t around (l.extend bound) outer :=
  ⟨ht, h.scope, hs.scopes⟩

theorem Resolves.failure_ne_none {around : Surroundings} {es : List Expr} {items : List Item}
    {f : Step α} {out : α → List Item} (h : Resolves around es items f out) {s : State}
    (hs : s.failure ≠ none) : (f s).2.failure ≠ none := by
  rw [h.stops s (Option.isSome_iff_ne_none.2 hs)]
  exact hs

theorem Resolves.append {around : Surroundings} {es es₁ es₂ : List Expr}
    {items₁ items₂ : List Item} {f : Step α} {g : Step β} {k : Step γ} {out₁ : α → List Item}
    {out₂ : β → List Item} {out : γ → List Item} (hf : Resolves around es₁ items₁ f out₁)
    (hg : Resolves around es₂ items₂ g out₂) (hes : Assignable es ↔ Assignable (es₁ ++ es₂))
    (hstate : ∀ s, (k s).2 = (g (f s).2).2)
    (hout : ∀ s, out (k s).1 = out₁ (f s).1 ++ out₂ (g (f s).2).1) :
    Resolves around es (items₁ ++ items₂) k out := by
  constructor
  · intro s hs
    have hfs := hf.stops s hs
    rw [hstate, hfs]
    exact hg.stops s hs
  · intro s
    rw [hstate]
    exact Nat.le_trans (hf.grows s) (hg.grows _)
  · intro s l outer hs
    rw [hstate, acceptable_congr hes]
    by_cases hfail : (f s).2.failure = none
    · have hbound := hf.bound s l outer hs hfail
      rw [hg.succeeds_iff _ _ outer (hbound.standsFor hs hfail), acceptable_append hbound.same]
      have := (hf.succeeds_iff s l outer hs).1 hfail
      simp [this]
    · constructor
      · intro h
        exact absurd h (hg.failure_ne_none hfail)
      · intro h
        exfalso
        apply hfail
        rw [hf.succeeds_iff s l outer hs]
        exact ((acceptable_append rfl).1 h).1
  · intro s l outer hs hsuccess
    rw [hstate] at hsuccess
    rw [hstate, hout]
    have hfail : (f s).2.failure = none := by
      by_contra hfail
      exact hg.failure_ne_none hfail hsuccess
    have hbound := hf.bound s l outer hs hfail
    exact hbound.append (hg.bound _ _ outer (hbound.standsFor hs hfail) hsuccess)

theorem Resolves.pair {around : Surroundings} {es₁ es₂ : List Expr} {items₁ items₂ : List Item}
    {f : Step α} {g : Step β} {out₁ : α → List Item} {out₂ : β → List Item}
    (hf : Resolves around es₁ items₁ f out₁) (hg : Resolves around es₂ items₂ g out₂) :
    Resolves around (es₁ ++ es₂) (items₁ ++ items₂)
      (do
        let a ← f
        let b ← g
        return (a, b))
      fun r => out₁ r.1 ++ out₂ r.2 := by
  apply hf.append hg
  · rfl
  · intro s
    rfl
  · intro s
    rfl

theorem Resolves.congr {around : Surroundings} {es es' : List Expr} {items : List Item}
    {f : Step α} {k : Step γ} {out : α → List Item} {out' : γ → List Item}
    (h : Resolves around es items f out) (hes : Assignable es' ↔ Assignable es)
    (hstate : ∀ s, (k s).2 = (f s).2) (hout : ∀ s, out' (k s).1 = out (f s).1) :
    Resolves around es' items k out' := by
  constructor
  · intro s hs
    rw [hstate]
    exact h.stops s hs
  · intro s
    rw [hstate]
    exact h.grows s
  · intro s l outer hs
    rw [hstate, acceptable_congr hes]
    exact h.succeeds_iff s l outer hs
  · intro s l outer hs
    rw [hstate, hout]
    exact h.bound s l outer hs

theorem resolves_pure (around : Surroundings) {es : List Expr} (hes : Assignable es) {a : α}
    {out : α → List Item} (hout : out a = []) : Resolves around es [] (pure a) out := by
  constructor
  · intro s hs
    rfl
  · intro s
    apply Nat.le_refl
  · intro s l outer hs
    constructor
    · intro h
      constructor
      · exact hes
      · intro i hi
        cases hi
      · trivial
    · intro h
      exact hs.running
  · intro s l outer hs h
    rw [pure_apply, hout]
    constructor
    · rfl
    · rw [Layer.extend_nil]
      exact hs.scope
    · trivial
    · apply numbered_nil

theorem resolves_refer (around : Surroundings) (x : Identifier) :
    Resolves around [] [.use x] (refer around x) fun x => [.use x] := by
  constructor
  · intro s hs
    unfold refer
    rw [if_pos hs]
  · intro s
    unfold refer
    split
    · apply Nat.le_refl
    · split
      · apply Nat.le_refl
      · apply Nat.le_refl
  · intro s l outer hs
    have hvisible := hs.scope.id_visible? hs.scopes x.name
    unfold refer
    rw [hs.running, if_neg (by simp)]
    constructor
    · intro h
      constructor
      · exact assignable_nil
      · intro i hi declared hdeclared
        rw [List.mem_singleton] at hi
        subst hi
        cases hdeclared
      · refine ⟨?_, trivial⟩
        rw [Item.All, HasBinding]
        split at h
        next id hid =>
          rw [hid] at hvisible
          cases hv : visible? around.globals (l :: outer) x.name with
          | none =>
            rw [hv] at hvisible
            cases hvisible
          | some b => rfl
        · cases h
    · rintro ⟨-, -, hbinding, -⟩
      rw [Item.All, HasBinding, Option.isSome_iff_exists] at hbinding
      obtain ⟨b, hb⟩ := hbinding
      rw [hb] at hvisible
      split
      · rfl
      next hnone =>
        rw [hnone] at hvisible
        cases hvisible
  · intro s l outer hs
    have hvisible := hs.scope.id_visible? hs.scopes x.name
    unfold refer
    rw [hs.running, if_neg (by simp)]
    split
    next id hid =>
      intro h
      rw [hid] at hvisible
      constructor
      · rfl
      · exact hs.scope.extend fun name => rfl
      · exact ⟨hvisible, trivial⟩
      · apply numbered_nil
    next hnone =>
      intro h
      cases h

theorem nextId_introduce_le (name : String) (x : Identifier) (s : State) :
    s.nextId ≤ (introduce name x s).2.nextId := by
  unfold introduce
  split
  · apply Nat.le_refl
  · apply Nat.le_succ

theorem resolves_introduce (around : Surroundings) (x : Identifier) :
    Resolves around [] [.bind x] (introduce x.name x) fun x => [.bind x] := by
  constructor
  · intro s hs
    unfold introduce
    rw [if_pos hs]
  · intro s
    apply nextId_introduce_le
  · intro s l outer hs
    unfold introduce
    rw [hs.running, if_neg (by simp)]
    constructor
    · intro h
      constructor
      · exact assignable_nil
      · intro i hi declared hdeclared
        rw [List.mem_singleton] at hi
        subst hi
        cases hdeclared
      · exact ⟨trivial, trivial⟩
    · intro h
      rfl
  · intro s l outer hs h
    unfold introduce
    rw [hs.running, if_neg (by simp)]
    constructor
    · rfl
    · intro name
      rw [Layer.definition?_extend_singleton, Item.bound?, Scope.id?_bind]
      by_cases hname : name = x.name
      · rw [if_pos hname.symm, if_pos hname]
        rfl
      · rw [if_neg (Ne.symm hname), if_neg hname]
        exact hs.scope name
    · exact ⟨trivial, trivial⟩
    · exact numbered_singleton _ _ _ rfl

theorem failure_fail {s : State} (h : s.failure = none) (e : ResolveError) :
    (fail e s).2.failure = some e := by
  have happly : (fail e s).2 = if s.failure.isSome then s else { s with failure := some e } := rfl
  rw [happly, h]
  rfl

theorem nextId_fail (e : ResolveError) (s : State) : (fail e s).2.nextId = s.nextId := by
  have happly : (fail e s).2 = if s.failure.isSome then s else { s with failure := some e } := rfl
  rw [happly]
  split
  · rfl
  · rfl

theorem resolves_fail (around : Surroundings) {target value : Expr} {es : List Expr}
    (h : ∀ x, target ≠ .identifier x) (items : List Item) (k : Step γ) (out : γ → List Item)
    (hstate : ∀ s, (k s).2 = (fail .invalidAssignmentTarget s).2) :
    Resolves around (.assign target value :: es) items k out := by
  constructor
  · intro s hs
    rw [hstate]
    exact if_pos hs
  · intro s
    apply Nat.le_of_eq
    rw [hstate, nextId_fail]
  · intro s l outer hs
    rw [hstate]
    constructor
    · intro hfail
      rw [failure_fail hs.running] at hfail
      cases hfail
    · intro haccept
      exfalso
      obtain ⟨x, hx⟩ := haccept.assignable target value List.mem_cons_self
      exact h x hx
  · intro s l outer hs hfail
    rw [hstate, failure_fail hs.running] at hfail
    cases hfail

mutual

theorem resolves_expr (around : Surroundings) (e : Expr) :
    Resolves around e.subexpressions e.items (e.resolve around) Expr.items := by
  match e with
  | .string value =>
    apply resolves_pure
    · exact (assignable_cons (by simp)).2 assignable_nil
    · rfl
  | .number value =>
    apply resolves_pure
    · exact (assignable_cons (by simp)).2 assignable_nil
    · rfl
  | .identifier x =>
    apply (resolves_refer around x).congr
    · exact assignable_cons (by simp)
    · intro s
      rfl
    · intro s
      rfl
  | .binary op left right =>
    apply (resolves_expr around left).append (resolves_expr around right)
    · exact assignable_cons (by simp)
    · intro s
      rfl
    · intro s
      rfl
  | .call callee arguments =>
    apply (resolves_expr around callee).append (resolves_exprs around arguments)
    · exact assignable_cons (by simp)
    · intro s
      rfl
    · intro s
      rfl
  | .assign (.identifier x) value =>
    apply (resolves_refer around x).append (resolves_expr around value)
    · rw [Expr.subexpressions, assignable_assign]
      exact assignable_cons (by simp)
    · intro s
      rfl
    · intro s
      rfl
  | .assign (.string _) _ => exact resolves_fail around (by simp) _ _ _ fun _ => rfl
  | .assign (.number _) _ => exact resolves_fail around (by simp) _ _ _ fun _ => rfl
  | .assign (.binary ..) _ => exact resolves_fail around (by simp) _ _ _ fun _ => rfl
  | .assign (.call ..) _ => exact resolves_fail around (by simp) _ _ _ fun _ => rfl
  | .assign (.assign ..) _ => exact resolves_fail around (by simp) _ _ _ fun _ => rfl
  | .assign (.declare ..) _ => exact resolves_fail around (by simp) _ _ _ fun _ => rfl
  | .declare x value =>
    apply (resolves_expr around value).append (resolves_introduce around x)
    · rw [Expr.subexpressions, List.append_nil]
      exact assignable_cons (by simp)
    · intro s
      rfl
    · intro s
      rfl

theorem resolves_exprs (around : Surroundings) (es : List Expr) :
    Resolves around (Expr.subexpressionsList es) (Expr.itemsList es) (Expr.resolveList around es)
      Expr.itemsList := by
  match es with
  | [] =>
    apply resolves_pure
    · exact assignable_nil
    · rfl
  | e :: es =>
    apply (resolves_expr around e).append (resolves_exprs around es)
    · rfl
    · intro s
      rfl
    · intro s
      rfl

end

end Resolution

end LiterateFun
