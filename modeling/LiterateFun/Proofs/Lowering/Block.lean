import LiterateFun.Proofs.Emission.Scopes
import LiterateFun.Proofs.Lowering.Histories
import LiterateFun.Proofs.Lowering.Statements

/-!
This module contains the correctness of the blocks of accepted programs, at any depth. A block
without declarations, in which no operand has an `=` in it, has its own braces in the text of the
program, and what stands in them does what the block does.
-/

namespace LiterateFun

open Resolution Script

variable {V : Type}

/-- The identifiers of a block that none of its own `:=` binds. -/
def Block.Free (c : Block) : Known := fun x =>
  x ∈ blockIdentifiers c ∧ ∀ id ∈ blockDeclaredIds c, x.id ≠ some id

namespace Block

section

variable {globals : List (String × Nat)} {outer : List Layer} {c : Block} {x : Identifier}
  (h : WellBound globals outer ⟨c.hoisted, []⟩ (blockItems c)) (hfree : declarationFree c)
  (hassignable : Assignable (blockSubexpressions c))

include h hfree hassignable

theorem mem_declaredIds_of_definition {p : String × Identifier}
    (hp : p ∈ definitionsOf (blockItems c)) : ∃ id ∈ blockDeclaredIds c, p.2.id = some id := by
  obtain ⟨id, hid⟩ := Option.ne_none_iff_exists'.1 (h.bound p hp)
  refine ⟨id, ?_, hid⟩
  rw [← (idsOf_perm_block c hfree hassignable).mem_iff, mem_idsOf]
  exact ⟨p, hp, hid⟩

theorem visible_of_free (hx : c.Free x) : HasVisibleId globals x outer := by
  have hdefinitions : c.tree.definitions = definitionsOf (blockItems c) := by
    rw [Block.tree, Item.definitions, hoisted_of_declarationFree hfree, List.nil_append]
  have hnot : ∀ p ∈ c.tree.definitions, p.2.id ≠ x.id := by
    intro p hp heq
    rw [hdefinitions] at hp
    obtain ⟨id, hid, hpid⟩ := mem_declaredIds_of_definition h hfree hassignable hp
    exact hx.2 id hid (heq.symm.trans hpid)
  obtain ⟨m, hm, rfl⟩ := mem_blockIdentifiers_iff.1 hx.1
  cases m with
  | definition name x =>
    have hmem : (name, x) ∈ c.tree.definitions := by
      rw [← Item.filterMap_definition?_marks]
      exact List.mem_filterMap.2 ⟨_, hm, rfl⟩
    exact absurd rfl (hnot _ hmem)
  | reference x =>
    obtain ⟨layers, hrefers⟩ := c.tree.exists_refers hm
    have hsubset := hrefers.definitions_subset
    obtain ⟨before, i, after, inner, hitems, hi, rfl⟩ := Item.refers_scope_iff.1 hrefers
    have hvisible := (allItems_iff _).1 h.visible before i after hitems x inner hi
    obtain ⟨binding, hbinding, hid⟩ := Option.map_eq_some_iff.1 hvisible
    have happend : inner ++ Layer.extend ⟨c.hoisted, []⟩ before :: outer =
        (inner ++ [⟨c.hoisted, before⟩]) ++ outer := by
      rw [List.append_assoc]
      rfl
    rw [happend] at hbinding
    rcases visible?_append_cases hbinding with ⟨y, hy, rfl⟩ | houtside
    · exact absurd hid (hnot _ (hsubset hy))
    · exact Option.map_eq_some_iff.2 ⟨binding, houtside, hid⟩

theorem id_ne_of_visible (hvisible : HasVisibleId globals x outer) :
    ∀ id ∈ blockDeclaredIds c, x.id ≠ some id := by
  intro id hid heq
  rw [← (idsOf_perm_block c hfree hassignable).mem_iff, mem_idsOf] at hid
  obtain ⟨p, hp, hpid⟩ := hid
  obtain ⟨binding, hbinding, hbid⟩ := Option.map_eq_some_iff.1 hvisible
  have hmem := introduced_subset_cons globals ⟨c.hoisted, []⟩ outer (mem_introduced hbinding)
  exact h.id_ne hmem hp (by rw [hbid, heq, hpid])

omit hassignable in
theorem coherent_visible (ids : List Nat) :
    Coherent ids fun x => HasVisibleId globals x outer := by
  refine h.coherent (fun x hx => ?_) ids
  rw [hoisted_of_declarationFree hfree]
  exact hx

theorem tracked_free {ids : List Nat} (hids : blockDeclaredIds c ⊆ ids) :
    tracked ids c.Free (blockItems c) := by
  have hintroduced : ∀ x, c.Free x → (x.name, x.id) ∈ introduced globals outer := by
    intro x hx
    obtain ⟨binding, hbinding, hid⟩ :=
      Option.map_eq_some_iff.1 (visible_of_free h hfree hassignable hx)
    rw [← hid]
    exact mem_introduced hbinding
  have huses : allItems (fun x _ => HasVisibleId globals x outer → c.Free x) outer
      ⟨c.hoisted, []⟩ (blockItems c) := by
    rw [allItems_iff]
    intro before i after hitems x inner hx hvisible
    refine ⟨?_, id_ne_of_visible h hfree hassignable hvisible⟩
    have hrefers : c.tree.Refers x (inner ++ [⟨c.hoisted, before⟩]) :=
      Item.refers_scope_iff.2 ⟨before, i, after, inner, hitems, hx, rfl⟩
    exact mem_blockIdentifiers_iff.2 ⟨_, hrefers.reference_mem, rfl⟩
  have htracked : tracked ids (knownIn c.Free [⟨c.hoisted, []⟩]) (blockItems c) :=
    tracked_knownIn [] (blockItems c) hintroduced h
    (by simp [hoisted_of_declarationFree hfree]) (fun i hi declared => declares_nil c hfree hi)
    (by
      intro p hp
      obtain ⟨id, hid, hpid⟩ := mem_declaredIds_of_definition h hfree hassignable hp
      exact ⟨id, hids hid, hpid⟩)
    huses
  rw [knownIn, knownIn, Known.after_nil] at htracked
  exact htracked

end

/--
The code of a block leads from `m` to `t` with the outcome, the calls and the values of a result
that a run of the block in `w` has.
-/
structure Simulates (I : Interpretation V) (ids : List Nat) (c : Block) (w : World V)
    (result : Outcome V × World V) (m t : Machine V) : Prop where
  exec : execScope I (c.lower ids) m = some (result.1, t)
  calls : t.calls = result.2.calls
  store : ∀ x, c.Free x → t.memory (.variable (x.variable ids)) = some (result.2.store x.id)
  /-- All other variables and temporaries stay as they are. -/
  memory_frame : ∀ p, (∀ x, c.Free x → p ≠ .variable (x.variable ids)) → t.memory p = m.memory p
  store_frame : ∀ id, (∀ x ∈ blockIdentifiers c, x.id ≠ id) → result.2.store id = w.store id

end Block

section

variable {globals : List (String × Nat)} {outer : List Layer} {c : Block} {ids : List Nat}
  (h : WellBound globals outer ⟨c.hoisted, []⟩ (blockItems c)) (hfree : declarationFree c)
  (hassignable : Assignable (blockSubexpressions c))

include h hfree hassignable

theorem WellBound.simulates (hids : blockDeclaredIds c ⊆ ids)
    (hoperands : OperandsAssignNothing (blockSubexpressions c)) (I : Interpretation V)
    {w : World V} {m : Machine V}
    (hstore : ∀ x, c.Free x → m.memory (.variable (x.variable ids)) = some (w.store x.id))
    (hcalls : m.calls = w.calls) :
    ∃ t, c.Simulates I ids w (runStatements I c w) m t := by
  have htracked := Block.tracked_free h hfree hassignable hids
  have hvisible := fun x => Block.visible_of_free (x := x) h hfree hassignable
  have hstart : Corresponds ids c.Free {} w m := by
    refine ⟨?_, hstore, hcalls, ?_⟩
    · intro x y hx hy
      exact Block.coherent_visible h hfree ids x y (hvisible x hx) (hvisible y hy)
    · intro v hv
      cases hv
  obtain ⟨t, hexec, ht, hconfined⟩ := hasResult_execScope hassignable htracked (fun m hm =>
    lowerStatements_follows I c hfree hassignable htracked hoperands hm) hstart
  refine ⟨t, ?_, ht.calls, ht.store, fun p hp => hconfined p List.not_mem_nil hp, ?_⟩
  · rw [Block.lower, assemble_of_declarationFree hfree]
    exact hexec
  · intro id hid
    exact store_runStatements_eq I c hid w

theorem Block.Simulates.memory_of_visible {I : Interpretation V} {w : World V}
    {result : Outcome V × World V} {m t : Machine V} (ht : c.Simulates I ids w result m t)
    {y : Identifier} (hy : HasVisibleId globals y outer)
    (hm : m.memory (.variable (y.variable ids)) = some (w.store y.id)) :
    t.memory (.variable (y.variable ids)) = some (result.2.store y.id) := by
  have hcoherent : ∀ x, c.Free x → (x.variable ids = y.variable ids ↔ x.id = y.id) := by
    intro x hx
    exact Block.coherent_visible h hfree ids x y
      (Block.visible_of_free h hfree hassignable hx) hy
  by_cases hused : ∃ x, c.Free x ∧ x.id = y.id
  · obtain ⟨x, hx, hid⟩ := hused
    rw [← (hcoherent x hx).2 hid, ← hid]
    exact ht.store x hx
  · have hmemory : t.memory (.variable (y.variable ids)) =
        m.memory (.variable (y.variable ids)) := by
      apply ht.memory_frame
      intro x hx heq
      exact hused ⟨x, hx, (hcoherent x hx).1 (Place.variable.inj heq).symm⟩
    have hstore : result.2.store y.id = w.store y.id := by
      apply ht.store_frame
      intro x hx hid
      refine hused ⟨x, ⟨hx, ?_⟩, hid⟩
      rw [hid]
      exact Block.id_ne_of_visible h hfree hassignable hy
    rw [hmemory, hm, hstore]

end

theorem Resolved.layouts_mem_scopesOf {globals : List (String × Nat)} {p : Block}
    (h : Resolved globals p) (hplain : ∀ x ∈ blockIdentifiers p, IsPlain x.name)
    {names : List Identifier} {c : Block} (hc : (names, c) ∈ ([], p) :: blocksIn p) :
    layoutsOf (c.lower (Generator.ofBlock p).declaredIds) ∈ Layout.scopesOf
      (Layout.ofLines (Text.lines (Script.text (Generator.ofBlock p).script.1))) := by
  have hhoisted : (p.hoisted.map Prod.fst).Nodup := h.nodup_hoisted List.mem_cons_self
  have hshows := shows_text (Block.namesAll_lower (Generator.ofBlock p).declaredIds hplain)
  have hlayouts : Layout.ofLines (Text.lines (Script.text (Generator.ofBlock p).script.1)) =
      layoutsOf (p.lower (Generator.ofBlock p).declaredIds) := by
    rw [Generator.script_ofBlock hhoisted]
    exact hshows.layouts
  rw [hlayouts]
  exact Block.layouts_mem_scopesOf (fun p => h.nodup_classNames) hc

/--
Every block of an accepted program that has no declarations and no `=` in an operand: all that
stands in a pair of braces of the text of the program is its code, and this has the outcome and the
calls of the block and changes the variables around the block in the same way.
-/
theorem execScope_lower {s : Session} (hs : s.Reachable) {b p : Block}
    (hb : (s.resolve b).2.2 = none) (hp : (s.resolve b).1 = p) {ids : List Nat}
    (hids : ids = (Generator.ofBlock p).declaredIds) {names : List Identifier} {c : Block}
    (hc : (names, c) ∈ ([], p) :: blocksIn p) (hfree : declarationFree c)
    (hoperands : OperandsAssignNothing (blockSubexpressions c)) (I : Interpretation V)
    {w : World V} {m : Machine V}
    (hstore : ∀ x, c.Free x → m.memory (.variable (x.variable ids)) = some (w.store x.id))
    (hcalls : m.calls = w.calls) :
    (∃ text g, (Generator.ofBlock p).generate? = some (text, g) ∧
      ((∀ x ∈ blockIdentifiers p, IsPlain x.name) →
        layoutsOf (c.lower ids) ∈ Layout.scopesOf (Layout.ofLines (Text.lines text)))) ∧
    ∃ t, c.Simulates I ids w (runStatements I c w) m t ∧
      ∀ layers, c.tree.Within p.tree layers → ∀ y, HasVisibleId s.globals y layers →
        m.memory (.variable (y.variable ids)) = some (w.store y.id) →
          t.memory (.variable (y.variable ids)) =
            some ((runStatements I c w).2.store y.id) := by
  have hresolved := Session.resolved_resolve hs hb
  rw [hp] at hresolved
  subst hids
  have hpart : c.PartOf [p.tree] (blockSubexpressions p) (blockRoles p) (blockDeclaredIds p) :=
    Block.partOf hc
  have hassignable : Assignable (blockSubexpressions c) := fun target value hmem =>
    hresolved.assignable target value (hpart.subexpressions hmem)
  have hids : blockDeclaredIds c ⊆ (Generator.ofBlock p).declaredIds := by
    refine List.Subset.trans hpart.declared (Generator.blockDeclaredIds_subset_ofBlock ?_)
    exact hresolved.nodup_hoisted List.mem_cons_self
  refine ⟨⟨_, _, hresolved.generate?_ofBlock, fun hplain =>
    hresolved.layouts_mem_scopesOf hplain hc⟩, ?_⟩
  obtain ⟨layers, hwithin⟩ := Block.exists_within hc
  obtain ⟨t, ht⟩ := (hresolved.wellBound.within hwithin).simulates hfree hassignable hids
    hoperands I hstore hcalls
  refine ⟨t, ht, ?_⟩
  intro layers hwithin y hy hm
  refine ht.memory_of_visible (hresolved.wellBound.within hwithin) hfree hassignable ?_ hm
  rw [HasVisibleId, visible?_append_nil]
  exact hy

/-- The program `\fun{f}{a}{y := a; if y {a = y + "b"; return z := a + y;}}`. -/
def branchingProgram : Block :=
  [.declaration (.function { name := "f" } [{ name := "a" }]
    [.expression (.declare { name := "y" } (.identifier { name := "a" })),
     .conditional (.identifier { name := "y" })
      [.expression (.assign (.identifier { name := "a" })
        (.binary .add (.identifier { name := "y" }) (.string "b"))),
       .return (.declare { name := "z" }
        (.binary .add (.identifier { name := "a" }) (.identifier { name := "y" })))]
      none])]

def resolvedBranch : Block :=
  [.expression (.assign (.identifier { name := "a", id := some 2 })
    (.binary .add (.identifier { name := "y", id := some 3 }) (.string "b"))),
   .return (.declare { name := "z", id := some 4 } (.binary .add
    (.identifier { name := "a", id := some 2 }) (.identifier { name := "y", id := some 3 })))]

def resolvedBranchingProgram : Block :=
  [.declaration (.function { name := "f", id := some 1 } [{ name := "a", id := some 2 }]
    [.expression (.declare { name := "y", id := some 3 }
      (.identifier { name := "a", id := some 2 })),
     .conditional (.identifier { name := "y", id := some 3 }) resolvedBranch none])]

theorem execScope_lower_resolvedBranch :
    ∃ text g t, (Generator.ofBlock resolvedBranchingProgram).generate? = some (text, g) ∧
      layoutsOf (resolvedBranch.lower [3, 4]) ∈
        Layout.scopesOf (Layout.ofLines (Text.lines text)) ∧
      execScope concatenation (resolvedBranch.lower [3, 4])
        { memory := fun _ => some "c", calls := [] } = some (.returned "cbc", t) ∧
      t.memory (.variable ⟨"a", none⟩) = some "cb" := by
  have hsuccess : ((Session.withBuiltins []).resolve branchingProgram).2.2 = none := by
    decide +kernel
  have hresolved : ((Session.withBuiltins []).resolve branchingProgram).1 =
      resolvedBranchingProgram := by
    cbv
  have hids : [3, 4] = (Generator.ofBlock resolvedBranchingProgram).declaredIds := by
    decide +kernel
  have hmem : ([], resolvedBranch) ∈
      ([], resolvedBranchingProgram) :: blocksIn resolvedBranchingProgram := by
    simp [blocksIn, resolvedBranchingProgram, Statement.blocks, Declaration.blocks]
  have hoperands : OperandsAssignNothing (blockSubexpressions resolvedBranch) := by
    simp [OperandsAssignNothing, resolvedBranch, blockSubexpressions, Statement.subexpressions,
      Expr.subexpressions, Expr.operands]
  have hplain : ∀ x ∈ blockIdentifiers resolvedBranchingProgram, IsPlain x.name := by
    decide +kernel
  have hfree : resolvedBranch.Free { name := "a", id := some 2 } := by
    rw [Block.Free]
    decide +kernel
  have hrun : (runStatements concatenation resolvedBranch ⟨fun _ => "c", []⟩).1 =
      .returned "cbc" := by
    decide +kernel
  have hstore : (runStatements concatenation resolvedBranch ⟨fun _ => "c", []⟩).2.store (some 2) =
      "cb" := by
    decide +kernel
  obtain ⟨⟨text, g, hgenerate, hscopes⟩, t, ht, -⟩ := execScope_lower (.withBuiltins []) hsuccess
    hresolved hids hmem ⟨trivial, trivial, trivial⟩ hoperands concatenation
    (w := ⟨fun _ => "c", []⟩) (m := ⟨fun _ => some "c", []⟩) (fun _ _ => rfl) rfl
  have hexec := ht.exec
  rw [hrun] at hexec
  have ha := ht.store _ hfree
  rw [hstore] at ha
  exact ⟨text, g, t, hgenerate, hscopes hplain, hexec, ha⟩

end LiterateFun
