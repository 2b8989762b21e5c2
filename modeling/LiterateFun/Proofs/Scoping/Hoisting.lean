import LiterateFun.Proofs.Scoping.Expression

/-!
This module contains the correctness of the first pass over a scope, which makes the declarations of
the scope known, and of a scope as a whole.
-/

namespace LiterateFun

namespace Resolution

/-- A step that makes declarations known to a new scope, of which `out` tells what became. -/
structure Hoists (declared : List (String × Identifier)) (p : Step α)
    (out : α → List (String × Identifier)) : Prop where
  stops : ∀ s, s.failure.isSome → (p s).2 = s
  grows : ∀ s, s.nextId ≤ (p s).2.nextId
  succeeds_iff : ∀ s known, s.failure = none → (known.map Prod.fst).Nodup →
    Represents ⟨known, []⟩ s.scope →
    ((p s).2.failure = none ↔ ((known ++ declared).map Prod.fst).Nodup)
  same : ∀ s, relabelDeclared Identifier.forgetId (out (p s).1) =
    relabelDeclared Identifier.forgetId declared
  scope : ∀ s known, s.failure = none → (known.map Prod.fst).Nodup →
    Represents ⟨known, []⟩ s.scope → (p s).2.failure = none →
    Represents ⟨known ++ out (p s).1, []⟩ (p s).2.scope
  numbered : ∀ s, s.failure = none → (p s).2.failure = none →
    Numbered s.nextId (p s).2.nextId (out (p s).1)

theorem map_fst_relabelDeclared (f : Identifier → Identifier)
    (declared : List (String × Identifier)) :
    (relabelDeclared f declared).map Prod.fst = declared.map Prod.fst := by
  simp [relabelDeclared]

theorem Hoists.append {declared₁ declared₂ : List (String × Identifier)} {p : Step α} {q : Step β}
    {k : Step γ} {out₁ : α → List (String × Identifier)} {out₂ : β → List (String × Identifier)}
    {out : γ → List (String × Identifier)} (hp : Hoists declared₁ p out₁)
    (hq : Hoists declared₂ q out₂) (hstate : ∀ s, (k s).2 = (q (p s).2).2)
    (hout : ∀ s, out (k s).1 = out₁ (p s).1 ++ out₂ (q (p s).2).1) :
    Hoists (declared₁ ++ declared₂) k out := by
  have hnames : ∀ s, (out₁ (p s).1).map Prod.fst = declared₁.map Prod.fst := by
    intro s
    rw [← map_fst_relabelDeclared Identifier.forgetId, hp.same, map_fst_relabelDeclared]
  have hfirst : ∀ s, (k s).2.failure = none → (p s).2.failure = none := by
    intro s hs
    by_contra hfail
    rw [hstate, hq.stops _ (Option.isSome_iff_ne_none.2 hfail)] at hs
    exact hfail hs
  have hknown : ∀ s known, s.failure = none → (known.map Prod.fst).Nodup →
      Represents ⟨known, []⟩ s.scope → (p s).2.failure = none →
      ((known ++ out₁ (p s).1).map Prod.fst).Nodup := by
    intro s known hs hknown hscope hfail
    rw [List.map_append, hnames, ← List.map_append]
    exact (hp.succeeds_iff s known hs hknown hscope).1 hfail
  constructor
  · intro s hs
    have hps := hp.stops s hs
    rw [hstate, hps]
    exact hq.stops s hs
  · intro s
    rw [hstate]
    exact Nat.le_trans (hp.grows s) (hq.grows _)
  · intro s known hs hnodup hscope
    by_cases hfail : (p s).2.failure = none
    · rw [hstate, hq.succeeds_iff _ _ hfail (hknown s known hs hnodup hscope hfail)
        (hp.scope s known hs hnodup hscope hfail)]
      simp only [List.map_append, hnames, List.append_assoc]
    · constructor
      · intro h
        exact absurd (hfirst s h) hfail
      · intro h
        exfalso
        apply hfail
        rw [hp.succeeds_iff s known hs hnodup hscope]
        rw [← List.append_assoc, List.map_append] at h
        exact (List.nodup_append.1 h).1
  · intro s
    have hp' := hp.same s
    have hq' := hq.same (p s).2
    unfold relabelDeclared at *
    rw [hout, List.map_append, List.map_append, hp', hq']
  · intro s known hs hnodup hscope hsuccess
    have hfail := hfirst s hsuccess
    rw [hstate] at hsuccess
    rw [hstate, hout, ← List.append_assoc]
    exact hq.scope _ _ hfail (hknown s known hs hnodup hscope hfail)
      (hp.scope s known hs hnodup hscope hfail) hsuccess
  · intro s hs hsuccess
    have hfail := hfirst s hsuccess
    rw [hstate] at hsuccess
    rw [hstate, hout]
    exact (hp.numbered s hs hfail).append (hq.numbered _ hfail hsuccess)

theorem hoists_pure {a : α} {out : α → List (String × Identifier)} (hout : out a = []) :
    Hoists [] (pure a) out := by
  constructor
  · intro s hs
    rfl
  · intro s
    apply Nat.le_refl
  · intro s known hs hknown hscope
    rw [pure_apply, List.append_nil]
    simp [hs, hknown]
  · intro s
    rw [pure_apply, hout]
  · intro s known hs hknown hscope _
    rw [pure_apply, hout, List.append_nil]
    exact hscope
  · intro s hs _
    rw [pure_apply, hout]
    apply numbered_nil

theorem hoists_reserve (name : String) : Hoists [] (reserve name) fun _ => [] := by
  have happly : ∀ s, (reserve name s).2 =
      if s.failure.isSome then s else { s with scope := s.scope.reserve name } := fun s => rfl
  constructor
  · intro s hs
    rw [happly, if_pos hs]
  · intro s
    rw [happly]
    split
    · apply Nat.le_refl
    · apply Nat.le_refl
  · intro s known hs hknown _
    rw [happly, hs, List.append_nil]
    simp [hknown]
  · intro s
    rfl
  · intro s known hs hknown hscope _ other
    rw [happly, hs, List.append_nil]
    simp only [Option.isSome_none, Bool.false_eq_true, if_false]
    rw [Scope.id?_reserve]
    exact hscope other
  · intro s hs _
    rw [happly, hs]
    apply numbered_nil

theorem Represents.isBound_iff {known : List (String × Identifier)} {s : Scope}
    (h : Represents ⟨known, []⟩ s) (name : String) :
    s.isBound name = true ↔ name ∈ known.map Prod.fst := by
  have hname := congrArg Option.isSome (h name)
  rw [Option.isSome_map, Option.isSome_map] at hname
  rw [Scope.isBound_eq_isSome_id?, ← hname]
  simp [Layer.definition?]

theorem Represents.bind {known : List (String × Identifier)} {s : Scope}
    (h : Represents ⟨known, []⟩ s) {name : String} (hname : name ∉ known.map Prod.fst)
    {x : Identifier} {id : Nat} (hx : x.id = some id) :
    Represents ⟨known ++ [(name, x)], []⟩ (s.bind name id) := by
  intro other
  have hother := h other
  simp only [Layer.definition?, List.reverse_nil, List.findSome?_nil, Option.orElse_eq_orElse,
    Option.orElse_eq_or, Option.none_or] at hother ⊢
  rw [List.lookup_append, Scope.id?_bind]
  by_cases heq : other = name
  · have hnone : known.lookup name = none := by
      rw [List.lookup_eq_none_iff]
      intro p hp
      rw [bne_iff_ne]
      rintro rfl
      exact hname (List.mem_map_of_mem hp)
    subst heq
    rw [hnone, if_pos rfl, Option.none_or, List.lookup_cons_self]
    simp [hx]
  · rw [if_neg heq, ← hother, List.lookup_cons, beq_false_of_ne heq, List.lookup_nil,
      Option.or_none]

theorem hoists_define (name : String) (x : Identifier) :
    Hoists [(name, x)] (define name x) fun x => [(name, x)] := by
  have hnodup : ∀ known : List (String × Identifier), (known.map Prod.fst).Nodup →
      (((known ++ [(name, x)]).map Prod.fst).Nodup ↔ name ∉ known.map Prod.fst) := by
    intro known hknown
    rw [List.map_append, List.perm_append_comm.nodup_iff, List.map_singleton,
      List.singleton_append, List.nodup_cons]
    simp [hknown]
  constructor
  · intro s hs
    rw [define_apply]
    split
    · exact if_pos hs
    · unfold introduce
      rw [if_pos hs]
  · intro s
    rw [define_apply]
    split
    · apply Nat.le_of_eq
      rw [nextId_fail]
    · apply nextId_introduce_le
  · intro s known hs hknown hscope
    rw [hnodup known hknown, ← hscope.isBound_iff, define_apply]
    split
    next h =>
      rw [failure_fail hs]
      simp [h]
    next h =>
      unfold introduce
      rw [hs, if_neg (by simp)]
      simp [h]
  · intro s
    simp [relabelDeclared]
  · intro s known hs hknown hscope hsuccess
    rw [define_apply] at hsuccess ⊢
    split at hsuccess
    next h =>
      rw [failure_fail hs] at hsuccess
      cases hsuccess
    next h =>
      rw [hscope.isBound_iff] at h
      unfold introduce
      rw [if_neg, hs, if_neg (by simp)]
      · exact hscope.bind h rfl
      · rw [hscope.isBound_iff]
        exact h
  · intro s hs hsuccess
    rw [define_apply] at hsuccess ⊢
    split at hsuccess
    next h =>
      rw [failure_fail hs] at hsuccess
      cases hsuccess
    next h =>
      unfold introduce
      rw [if_neg h, hs, if_neg (by simp)]
      exact numbered_singleton _ _ _ rfl

theorem hoists_reserveNames (e : Expr) : Hoists [] e.reserveNames fun _ => [] := by
  unfold Expr.reserveNames
  induction e.declaredNames with
  | nil => exact hoists_pure rfl
  | cons name names ih =>
    apply (hoists_reserve name).append ih
    · intro s
      rfl
    · intro s
      rfl

theorem hoists_resolveParameters (parameters : List Identifier) :
    Hoists (parametersDeclared parameters) (resolveParameters parameters) parametersDeclared := by
  induction parameters with
  | nil => exact hoists_pure rfl
  | cons x xs ih =>
    apply (hoists_define x.name x).append ih
    · intro s
      rfl
    · intro s
      have hname : (define x.name x s).1.name = x.name := by
        rw [← Identifier.name_forgetId, forgetId_define, Identifier.name_forgetId]
      simp only [resolveParameters, bind_apply, pure_apply, parametersDeclared, List.map_cons,
        hname, List.singleton_append]

theorem hoists_hoist (b : Block) : Hoists b.hoisted b.hoist (hoistedAs b) := by
  induction b with
  | nil => exact hoists_pure rfl
  | cons st b ih =>
    match st with
    | .declaration d =>
      apply (hoists_define d.qualifiedName d.name).append ih
      · intro s
        rfl
      · intro s
        rfl
    | .expression value =>
      apply (hoists_reserveNames value).append ih
      · intro s
        rfl
      · intro s
        rfl
    | .return value =>
      apply (hoists_reserveNames value).append ih
      · intro s
        rfl
      · intro s
        rfl
    | .conditional .. => exact ih

def State.entered (s : State) : State :=
  { s with scope := [] }

theorem resolves_inScope {around : Surroundings} {es : List Expr}
    {declared : List (String × Identifier)} {items : List Item} {p : Step α}
    {g : Surroundings → Step β} {k : Surroundings → Step γ}
    {outDeclared : α → List (String × Identifier)} {outItems : β → List Item}
    {out : γ → List Item} (hp : Hoists declared p outDeclared)
    (hg : ∀ around, Resolves around es items (g around) outItems)
    (hstate : ∀ around s, (k around s).2 = (g around (p s).2).2)
    (hout : ∀ around s, out (k around s).1 =
      [.scope (outDeclared (p s).1) (outItems (g around (p s).2).1)]) :
    Resolves around es [.scope declared items] (inScope around k) out := by
  have hafter : ∀ s, (inScope around k s).2 =
      { (g (around.enter s.scope) (p s.entered).2).2 with scope := s.scope } := by
    intro s
    rw [inScope_apply, hstate]
    rfl
  -- The body starts in a layer of its own, which holds the declarations with their new ids.
  have hinside : ∀ s l outer, StandsFor s around l outer → (p s.entered).2.failure = none →
      StandsFor (p s.entered).2 (around.enter s.scope) ⟨outDeclared (p s.entered).1, []⟩
        (l :: outer) := by
    intro s l outer hs hfail
    constructor
    · exact hfail
    · exact hp.scope s.entered [] hs.running List.nodup_nil represents_nil hfail
    · exact .cons hs.scope hs.scopes
  have hfirst : ∀ s, (inScope around k s).2.failure = none →
      (p s.entered).2.failure = none := by
    intro s hsuccess
    by_contra hfail
    rw [hafter] at hsuccess
    exact (hg _).failure_ne_none hfail hsuccess
  constructor
  · intro s hs
    have hps := hp.stops s.entered hs
    rw [hafter, hps, (hg _).stops s.entered hs]
    rfl
  · intro s
    rw [hafter]
    exact Nat.le_trans (hp.grows s.entered) ((hg _).grows _)
  · intro s l outer hs
    have hnodup := hp.succeeds_iff s.entered [] hs.running List.nodup_nil represents_nil
    rw [List.nil_append] at hnodup
    -- The first part fails exactly if a name is declared twice, and the body is not run then.
    by_cases hfail : (p s.entered).2.failure = none
    · have hlayer : Layer.relabel Identifier.forgetId ⟨outDeclared (p s.entered).1, []⟩ =
          Layer.relabel Identifier.forgetId ⟨declared, []⟩ := by
        rw [Layer.relabel, Layer.relabel, hp.same]
      have hiff := (hg _).succeeds_iff _ _ _ (hinside s l outer hs hfail)
      rw [hafter, hiff]
      constructor
      · rintro ⟨hassignable, hdistinct, hvisible⟩
        constructor
        · exact hassignable
        · exact distinct_scope.2 ⟨hnodup.1 hfail, hdistinct⟩
        · refine ⟨?_, trivial⟩
          rw [Item.All, ← allItems_hasBinding_congr hlayer]
          exact hvisible
      · rintro ⟨hassignable, hdistinct, hvisible, -⟩
        constructor
        · exact hassignable
        · exact (distinct_scope.1 hdistinct).2
        · rw [allItems_hasBinding_congr hlayer]
          exact hvisible
    · constructor
      · intro hsuccess
        exact absurd (hfirst s hsuccess) hfail
      · intro haccept
        exfalso
        apply hfail
        rw [hnodup]
        exact (distinct_scope.1 haccept.distinct).1
  · intro s l outer hs hsuccess
    have hfail := hfirst s hsuccess
    rw [hafter] at hsuccess
    have hbound := (hg _).bound _ _ _ (hinside s l outer hs hfail) hsuccess
    have hresult : out (inScope around k s).1 =
        [.scope (outDeclared (p s.entered).1)
          (outItems (g (around.enter s.scope) (p s.entered).2).1)] := by
      rw [inScope_apply, hout]
      rfl
    rw [hafter, hresult]
    constructor
    · simp only [relabelItems, Item.relabel, hp.same, hbound.same]
    · exact hs.scope.extend fun name => rfl
    · exact ⟨hbound.visible, trivial⟩
    · rw [definitionsOf, definitionsOf, List.append_nil, Item.definitions]
      exact (hp.numbered s.entered hs.running hfail).append hbound.numbered

end Resolution

end LiterateFun
