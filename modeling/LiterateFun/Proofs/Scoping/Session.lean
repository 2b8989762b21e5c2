import LiterateFun.Proofs.Scoping.Block

/-!
This module contains lexical scoping. The resolution of a block in a session succeeds if and only if
the block is well scoped, and then every reference has the id of its visible binding.
-/

namespace LiterateFun

namespace Resolution

namespace Session

/-- The sessions that come from builtins by adding declarations and by resolving blocks. -/
inductive Reachable : Session → Prop
  | withBuiltins (names : List String) : Reachable (withBuiltins names)
  | add {s t : Session} {d : Declaration} {id : Nat} (hs : Reachable s)
      (h : s.add d = .ok (id, t)) : Reachable t
  | resolve {s : Session} (hs : Reachable s) (b : Block) : Reachable (s.resolve b).2.1

theorem resolves_resolve (s : Session) (b : Block) :
    Resolves s.surroundings (blockSubexpressions b) [b.tree] (b.resolve s.surroundings)
      fun b => [b.tree] :=
  resolves_block s.surroundings b

theorem standsFor_start (s : Session) : StandsFor s.start s.surroundings ⟨[], []⟩ [] :=
  ⟨rfl, represents_nil, .nil⟩

/-- The global names have different ids, which were all given before. -/
structure WellNumbered (s : Session) : Prop where
  lt : ∀ p ∈ s.globals, p.2 < s.nextId
  nodup : (s.globals.map Prod.snd).Nodup

theorem WellNumbered.cons {s t : Session} (hs : s.WellNumbered) {name : String}
    (hglobals : t.globals = (name, s.nextId) :: s.globals) (hnext : t.nextId = s.nextId + 1) :
    t.WellNumbered := by
  constructor
  · intro p hp
    rw [hglobals, List.mem_cons] at hp
    rw [hnext]
    cases hp with
    | inl h =>
      rw [h]
      apply Nat.lt_succ_self
    | inr h => exact Nat.lt_succ_of_lt (hs.lt p h)
  · rw [hglobals, List.map_cons, List.nodup_cons]
    constructor
    · intro hmem
      obtain ⟨p, hp, heq⟩ := List.mem_map.1 hmem
      have := hs.lt p hp
      omega
    · exact hs.nodup

theorem wellNumbered_withBuiltins (names : List String) : (withBuiltins names).WellNumbered := by
  unfold withBuiltins
  have hinit : WellNumbered { globals := [], nextId := 1 } := by
    constructor
    · intro p hp
      cases hp
    · exact List.nodup_nil
  generalize ({ globals := [], nextId := 1 } : Session) = s at hinit
  induction names generalizing s with
  | nil => exact hinit
  | cons name names ih =>
    apply ih
    unfold withBuiltins.register
    split
    · exact hinit
    · exact hinit.cons rfl rfl

theorem Reachable.wellNumbered {s : Session} (hs : s.Reachable) : s.WellNumbered := by
  induction hs with
  | withBuiltins names => apply wellNumbered_withBuiltins
  | add hs h ih =>
    unfold Session.add at h
    split at h
    · cases h
    · cases h
      exact ih.cons rfl rfl
  | @resolve s hs b ih =>
    rw [resolve_eq]
    constructor
    · intro p hp
      apply Nat.lt_of_lt_of_le (ih.lt p hp)
      exact (s.resolves_resolve b).grows s.start
    · exact ih.nodup

end Session

end Resolution

open Resolution

/-- No name of a block is declared twice, and every name in it can be resolved. -/
structure Block.WellScoped (globals : List (String × Nat)) (b : Block) : Prop where
  /-- No scope declares two declarations or two parameters of the same name. -/
  distinct : ∀ declared, b.tree.Declares declared → (declared.map Prod.fst).Nodup
  /-- Only identifiers are assigned to. -/
  assignable : ∀ target value, .assign target value ∈ blockSubexpressions b →
    ∃ x, target = .identifier x
  /-- Every reference has a visible binding. -/
  visible : ∀ x layers, b.tree.Refers x layers → (visible? globals layers x.name).isSome

/-- The block is `b`, with every definition and every reference bound. -/
structure Block.IsResolved (globals : List (String × Nat)) (b resolved : Block) : Prop where
  same : resolved.forgetIds = b
  /-- Every reference has the id of its visible binding. -/
  visible : ∀ x layers, resolved.tree.Refers x layers →
    ∃ binding, visible? globals layers x.name = some binding ∧ x.id = binding.id
  /-- Different definitions have different ids. -/
  nodup : (resolved.tree.definitions.map fun p => p.2.id).Nodup
  /-- No definition is without an id or has one of a global name. -/
  fresh : ∀ p ∈ resolved.tree.definitions, ∃ id, p.2.id = some id ∧ ∀ q ∈ globals, q.2 ≠ id

theorem visible?_append_nil (globals : List (String × Nat)) (layers : List Layer) (name : String) :
    visible? globals (layers ++ [⟨[], []⟩]) name = visible? globals layers name := by
  induction layers with
  | nil => rfl
  | cons l layers ih => rw [List.cons_append, visible?, visible?, ih]

theorem acceptable_tree_iff {globals : List (String × Nat)} {b : Block} :
    Acceptable globals (blockSubexpressions b) [] ⟨[], []⟩ [b.tree] ↔ b.WellScoped globals := by
  constructor
  · rintro ⟨hassignable, hdistinct, hvisible, -⟩
    constructor
    · exact hdistinct b.tree List.mem_cons_self
    · exact hassignable
    · intro x layers hx
      have := (Item.all_iff b.tree).1 hvisible x layers hx
      rw [HasBinding, visible?_append_nil] at this
      exact this
  · intro h
    constructor
    · exact h.assignable
    · intro i hi
      rw [List.mem_singleton] at hi
      subst hi
      exact h.distinct
    · refine ⟨?_, trivial⟩
      rw [Item.all_iff]
      intro x layers hx
      rw [HasBinding, visible?_append_nil]
      exact h.visible x layers hx

theorem Resolution.Bound.isResolved {globals : List (String × Nat)} {s t : State} {b c : Block}
    (h : Bound globals s t [] ⟨[], []⟩ [b.tree] [c.tree]) (hglobals : ∀ p ∈ globals, p.2 < s.nextId)
    (hsame : c.forgetIds = b) : b.IsResolved globals c := by
  have hnumbered := h.numbered
  rw [definitionsOf, definitionsOf, List.append_nil] at hnumbered
  constructor
  · exact hsame
  · intro x layers hx
    have hvisible := (Item.all_iff c.tree).1 h.visible.1 x layers hx
    rw [HasVisibleId, visible?_append_nil, Option.map_eq_some_iff] at hvisible
    obtain ⟨binding, hbinding, hid⟩ := hvisible
    exact ⟨binding, hbinding, hid.symm⟩
  · exact hnumbered.nodup
  · intro p hp
    obtain ⟨id, hid, hle, -⟩ := hnumbered.exists_id hp
    refine ⟨id, hid, ?_⟩
    intro q hq
    have := hglobals q hq
    omega

/--
Lexical scoping: a block is accepted if and only if it is well scoped, and then every reference in
it has the id of its visible binding.
-/
theorem resolve_iff_wellScoped {s : Session} (hs : s.Reachable) {b : Block}
    (hb : ∀ x ∈ blockIdentifiers b, x.id = none) :
    ((s.resolve b).2.2 = none ↔ b.WellScoped s.globals) ∧
      ((s.resolve b).2.2 = none → b.IsResolved s.globals (s.resolve b).1) := by
  have hresolves := s.resolves_resolve b
  rw [Session.resolve_eq]
  constructor
  · rw [← acceptable_tree_iff]
    exact hresolves.succeeds_iff s.start _ _ s.standsFor_start
  · intro hsuccess
    have hbound := hresolves.bound s.start _ _ s.standsFor_start hsuccess
    apply hbound.isResolved hs.wellNumbered.lt
    rw [forgetIds_resolve, Block.forgetIds_eq_self hb]

/-- The program `x := "a"; if y := x { x := x + y; print(x); } \fun{f}{x}{ x = f(x); }`. -/
def shadowingProgram : Block :=
  [.expression (.declare { name := "x" } (.string "a")),
   .conditional (.declare { name := "y" } (.identifier { name := "x" }))
    [.expression (.declare { name := "x" }
      (.binary .add (.identifier { name := "x" }) (.identifier { name := "y" }))),
     .expression (.call (.identifier { name := "print" }) [.identifier { name := "x" }])]
    none,
   .declaration (.function { name := "f" } [{ name := "x" }]
    [.expression (.assign (.identifier { name := "x" })
      (.call (.identifier { name := "f" }) [.identifier { name := "x" }]))])]

theorem wellScoped_shadowingProgram :
    shadowingProgram.WellScoped (Session.withBuiltins ["print"]).globals ∧
      shadowingProgram.IsResolved (Session.withBuiltins ["print"]).globals
        ((Session.withBuiltins ["print"]).resolve shadowingProgram).1 := by
  have hunresolved : ∀ x ∈ blockIdentifiers shadowingProgram, x.id = none := by decide
  have hsuccess : ((Session.withBuiltins ["print"]).resolve shadowingProgram).2.2 = none := by
    decide +kernel
  have h := resolve_iff_wellScoped (.withBuiltins ["print"]) hunresolved
  exact ⟨h.1.1 hsuccess, h.2 hsuccess⟩

end LiterateFun
