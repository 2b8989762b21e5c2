import LiterateFun.Proofs.Scoping.Identity
import Mathlib.Data.List.Perm.Basic

/-!
This module contains the completeness of resolution. When all tasks of a session succeed and the
session is finished, every identifier of the trees is bound, and it was bound and recorded once.
-/

namespace LiterateFun

namespace Resolution

theorem map_apply {σ α β : Type} (f : α → β) (g : StateM σ α) (s : σ) :
    (f <$> g) s = (f (g s).1, (g s).2) := rfl

theorem resolve_withName (around : Surroundings) (d : Declaration) (name : Identifier) :
    (d.withName name).resolve around = (Declaration.withName · name) <$> d.resolve around := by
  cases d <;> rfl

theorem resolve_ne_declaration {around : Surroundings} {st : Statement}
    (h : ∀ d, st ≠ .declaration d) (s : State) (d : Declaration) :
    (st.resolve around s).1 ≠ .declaration d := by
  match st with
  | .expression _ => nofun
  | .return _ => nofun
  | .conditional _ _ none => nofun
  | .conditional _ _ (some _) => nofun
  | .declaration d => exact absurd rfl (h d)

theorem resolveStatements_withNames (around : Surroundings) (b : Block) (names : List Identifier) :
    resolveStatements around (b.withNames names) =
      (Block.withNames · names) <$> resolveStatements around b := by
  induction b generalizing names with
  | nil => rfl
  | cons st b ih =>
    funext s
    by_cases hd : ∃ d, st = .declaration d
    · obtain ⟨d, rfl⟩ := hd
      cases names with
      | nil =>
        simp only [Block.withNames_nil, map_apply]
        rfl
      | cons name names =>
        simp only [Block.withNames, resolveStatements, Statement.resolve, bind_apply, pure_apply,
          map_apply, resolve_withName, ih]
    · have hst : ∀ d, st ≠ .declaration d := fun d h => hd ⟨d, h⟩
      simp only [Block.withNames_cons hst, resolveStatements, bind_apply, pure_apply, map_apply, ih,
        Block.withNames_cons (resolve_ne_declaration hst s)]

theorem resolve_eq_withNames (around : Surroundings) (b : Block) :
    b.resolve around = inScope around (fun around => do
      let names ← b.hoist
      resolveStatements around (b.withNames names)) := by
  unfold Block.resolve inBlock
  congr 1
  funext around s
  simp only [bind_apply, pure_apply, resolveStatements_withNames, map_apply]

namespace Task

def declaration? : Task → Option Declaration
  | .add d => some d
  | .resolve _ => none

def block? : Task → Option Block
  | .add _ => none
  | .resolve b => some b

def Settled : Task → Prop
  | .add d => d.name.id.isSome ∧ Unbound (marksOf d.items)
  | .resolve b => ∀ m ∈ b.tree.marks, m.isBound

end Task

def Declaration.nameMark (d : Declaration) : Mark :=
  .definition d.qualifiedName d.name

theorem filter_marks_perm {trees : List Task} (h : ∀ tree ∈ trees, tree.Settled) :
    ((trees.flatMap Task.marks).filter Mark.isBound).Perm
      ((trees.filterMap Task.block?).flatMap (fun b => b.tree.marks) ++
        (trees.filterMap Task.declaration?).map Declaration.nameMark) := by
  induction trees with
  | nil => exact .nil
  | cons tree trees ih =>
    obtain ⟨htree, htrees⟩ := List.forall_mem_cons.1 h
    rw [List.flatMap_cons, List.filter_append]
    cases tree with
    | add d =>
      have hd : (Task.add d).marks.filter Mark.isBound = [Declaration.nameMark d] := by
        have hname : Mark.isBound (.definition d.qualifiedName d.name) = true := htree.1
        rw [Task.marks, Declaration.marks, List.filter_cons_of_pos hname, htree.2.filter_isBound]
        rfl
      rw [hd]
      exact ((ih htrees).cons _).trans List.perm_middle.symm
    | resolve b =>
      have hb : (Task.resolve b).marks.filter Mark.isBound = b.tree.marks :=
        List.filter_eq_self.2 htree
      rw [hb]
      have := (ih htrees).append_left b.tree.marks
      rw [← List.append_assoc] at this
      exact this

namespace Session

theorem settled_perform {s : Session} {task : Task} (htask : Unbound task.marks)
    (h : (s.perform task).2.2 = none) :
    (s.perform task).1.Settled ∧
      (s.perform task).2.1.pending =
        s.pending ++ (s.perform task).1.declaration?.toList := by
  cases task with
  | add d =>
    have hitems : Unbound (marksOf d.items) := fun m hm => htask m (List.mem_cons_of_mem _ hm)
    rw [perform] at h ⊢
    split at h
    next id t hadd =>
      constructor
      · rw [Task.Settled, Declaration.name_withName, items_withName]
        exact ⟨rfl, hitems⟩
      · unfold Session.add at hadd
        split at hadd
        · cases hadd
        · cases hadd
          rfl
    next => cases h
  | resolve b =>
    rw [perform, resolve_eq] at h ⊢
    have hcomplete := (tracks_block s.surroundings b).complete s.start h
    exact ⟨hcomplete.2, (List.append_nil _).symm⟩

theorem settled_performAll {s : Session} {tasks : List Task}
    (htasks : ∀ task ∈ tasks, Unbound task.marks)
    (h : ∀ failure ∈ (s.performAll tasks).2.2, failure = none) :
    (∀ tree ∈ (s.performAll tasks).1, tree.Settled) ∧
      (s.performAll tasks).2.1.pending =
        s.pending ++ (s.performAll tasks).1.filterMap Task.declaration? := by
  induction tasks generalizing s with
  | nil =>
    rw [performAll]
    simp
  | cons task tasks ih =>
    obtain ⟨htask, htasks⟩ := List.forall_mem_cons.1 htasks
    rw [performAll] at h ⊢
    obtain ⟨hfirst, hrest⟩ := List.forall_mem_cons.1 h
    obtain ⟨hsettled, hpending⟩ := settled_perform htask hfirst
    obtain ⟨hsettled', hpending'⟩ := ih htasks hrest
    refine ⟨List.forall_mem_cons.2 ⟨hsettled, hsettled'⟩, ?_⟩
    rw [hpending', hpending, List.append_assoc, List.filterMap_cons]
    cases (s.perform task).1 <;> rfl

theorem map_nameMark_resolveDeclarations (around : Surroundings) (ds : List Declaration)
    (s : State) :
    (resolveDeclarations around ds s).1.map Declaration.nameMark =
      ds.map Declaration.nameMark := by
  induction ds generalizing s with
  | nil => rfl
  | cons d ds ih =>
    have hd : Declaration.nameMark (d.resolve around s).1 = Declaration.nameMark d := by
      cases d with
      | «class» => rfl
      | function => rfl
      | method owner name parameters body =>
        have howner := Identifier.name_eq_of_forgetId_eq (forgetId_refer around owner s)
        simp only [Declaration.nameMark, Declaration.resolve, bind_apply, inScope_apply, pure_apply,
          Declaration.qualifiedName, Declaration.name, howner]
    simp only [resolveDeclarations, bind_apply, pure_apply, List.map_cons, hd, ih]

theorem map_forgetIds_resolveDeclarations (around : Surroundings) (ds : List Declaration)
    (s : State) :
    (resolveDeclarations around ds s).1.map (Declaration.relabel Identifier.forgetId) =
      ds.map (Declaration.relabel Identifier.forgetId) := by
  induction ds generalizing s with
  | nil => rfl
  | cons d ds ih =>
    simp only [resolveDeclarations, bind_apply, pure_apply, List.map_cons, ih,
      relabel_resolve_declaration]

theorem exists_of_finish_eq_ok {s : Session} {ds : List Declaration} {sites : Sites}
    (h : s.finish = (ds, .ok sites)) :
    ∃ t, resolveDeclarations s.surroundings s.pending s.start = (ds, t) ∧ t.failure = none ∧
      sites =
        { definitions := t.definitions, references := t.references, rebound := t.rebound } := by
  rw [finish_eq] at h
  obtain ⟨rfl, houtcome⟩ := Prod.mk.inj h
  exact ⟨_, rfl, outcome_eq_ok_iff.1 houtcome⟩

end Session

/-- The identifiers of trees are bound, and the sites list each of them once by its role. -/
structure BoundOnce (sites : Sites) (roles : List (Role × Identifier)) : Prop where
  bound : ∀ p ∈ roles, ∃ id, p.2.id = some id ∧ id ≠ 0
  definitions : sites.definitions.Perm ((roles.filter fun p => p.1 ≠ .reference).map Prod.snd)
  references : sites.references.Perm ((roles.filter fun p => p.1 = .reference).map Prod.snd)
  /-- No identifier was bound that had a binding already. -/
  rebound : sites.rebound = []

theorem map_snd_filterMap_definition? (roles : List (Role × Identifier)) :
    ((roleMarks roles).filterMap Mark.definition?).map Prod.snd =
      (roles.filter fun p => p.1 ≠ .reference).map Prod.snd := by
  induction roles with
  | nil => rfl
  | cons p roles ih =>
    obtain ⟨role, x⟩ := p
    cases role with
    | reference => exact ih
    | _ => exact congrArg (x :: ·) ih

theorem filterMap_reference? (roles : List (Role × Identifier)) :
    (roleMarks roles).filterMap Mark.reference? =
      (roles.filter fun p => p.1 = .reference).map Prod.snd := by
  induction roles with
  | nil => rfl
  | cons p roles ih =>
    obtain ⟨role, x⟩ := p
    cases role with
    | reference => exact congrArg (x :: ·) ih
    | _ => exact ih

theorem Records.ne_zero_of_defines {around : Surroundings} {s t : State} {marks : List Mark}
    (h : Records around s t marks) (hs : s.nextId ≠ 0) {name : String} {id : Nat}
    (hdefines : Defines marks name id) : id ≠ 0 := by
  obtain ⟨x, hx, hid⟩ := hdefines
  have hpair : (name, x) ∈ marks.filterMap Mark.definition? := List.mem_filterMap.2 ⟨_, hx, rfl⟩
  have hmem : x.id ∈ (marks.filterMap Mark.definition?).map fun p => p.2.id :=
    List.mem_map_of_mem hpair
  rw [h.ids, hid] at hmem
  obtain ⟨id', hrange, heq⟩ := List.mem_map.1 hmem
  cases heq
  rw [List.mem_range'_1] at hrange
  omega

namespace Session

theorem Registered.nextId_start_ne_zero {names : List String} {s : Session}
    (h : Registered names s) : s.start.nextId ≠ 0 := by
  rw [start, h.nextId]
  apply Nat.succ_ne_zero

theorem Registered.ne_zero_of_offers {names : List String} {s : Session} (h : Registered names s)
    {name : String} {id : Nat} (hoffers : Offers s.surroundings s.start.scope name id) :
    id ≠ 0 := by
  obtain ⟨scope, hscope, hid⟩ | hglobal := hoffers
  · rw [List.mem_singleton.1 hscope] at hid
    cases hid
  · have hmem : id ∈ s.globals.map Prod.snd := List.mem_map_of_mem (mem_of_lookup_eq_some hglobal)
    rw [h.ids, List.mem_reverse, List.mem_range'_1] at hmem
    omega

end Session

theorem Records.boundOnce {names : List String} {s : Session} {t : State} {marks : List Mark}
    {roles : List (Role × Identifier)} (h : Records s.surroundings s.start t marks)
    (hs : s.Registered names) (hperm : (roleMarks roles).Perm marks)
    (hbound : ∀ m ∈ marks, m.isBound) :
    BoundOnce { definitions := t.definitions, references := t.references, rebound := t.rebound }
      roles := by
  constructor
  · intro p hp
    have hmem : p.1.mark p.2 ∈ marks := hperm.mem_iff.1 (List.mem_map_of_mem hp)
    obtain ⟨id, hid⟩ := Option.isSome_iff_exists.1 (hbound _ hmem)
    refine ⟨id, by rw [← hid, Role.identifier_mark], ?_⟩
    -- Definitions have ids from the counter on, and references those of what they found.
    generalize p.1.mark p.2 = m at hmem hid
    cases m with
    | definition name x => exact h.ne_zero_of_defines hs.nextId_start_ne_zero ⟨x, hmem, hid⟩
    | reference x =>
      obtain ⟨id', hid', hfound⟩ := h.found x hmem
      have heq : some id' = some id := hid'.symm.trans hid
      cases heq
      cases hfound with
      | inl hoffers => exact hs.ne_zero_of_offers hoffers
      | inr hdefines => exact h.ne_zero_of_defines hs.nextId_start_ne_zero hdefines
  · rw [h.definitions, Session.start, hs.sites, List.nil_append, ← map_snd_filterMap_definition?]
    exact ((hperm.filterMap _).map _).symm
  · rw [h.references, Session.start, hs.sites, List.nil_append, ← filterMap_reference?]
    exact (hperm.filterMap _).symm
  · rw [h.rebound, Session.start, hs.sites]

theorem roleMarks_flatMap_perm {α : Type} {roles : α → List (Role × Identifier)}
    {marks : α → List Mark} (h : ∀ a, (roleMarks (roles a)).Perm (marks a)) (as : List α) :
    (roleMarks (as.flatMap roles)).Perm (as.flatMap marks) := by
  induction as with
  | nil => exact .nil
  | cons a as ih =>
    rw [List.flatMap_cons, roleMarks_append, List.flatMap_cons]
    exact (h a).append ih

def treeRoles (blocks : List Block) (ds : List Declaration) : List (Role × Identifier) :=
  blocks.flatMap blockRoles ++ ds.flatMap Declaration.roles

theorem map_snd_treeRoles (blocks : List Block) (ds : List Declaration) :
    (treeRoles blocks ds).map Prod.snd =
      blocks.flatMap blockIdentifiers ++ ds.flatMap Declaration.identifiers := by
  simp only [treeRoles, List.map_append, List.map_flatMap, map_snd_blockRoles,
    Declaration.map_snd_roles]

theorem roleMarks_treeRoles_perm (blocks : List Block) (ds : List Declaration) :
    (roleMarks (treeRoles blocks ds)).Perm
      (blocks.flatMap (fun b => b.tree.marks) ++ ds.flatMap Declaration.marks) := by
  rw [treeRoles, roleMarks_append]
  exact (roleMarks_flatMap_perm roleMarks_blockRoles_perm blocks).append
    (roleMarks_flatMap_perm Declaration.roleMarks_perm ds)

theorem Task.forgetIds_eq_self {task : Task} (h : ∀ x ∈ task.identifiers, x.id = none) :
    task.forgetIds = task := by
  cases task with
  | add d =>
    rw [Task.forgetIds, Declaration.relabel_eq_self]
    intro x hx
    rw [Identifier.forgetId, ← h x hx]
  | resolve b => exact congrArg Task.resolve (Block.forgetIds_eq_self h)

namespace Session

variable {tasks trees : List Task} {s : Session} {failures : List (Option ResolveError)}

theorem map_forgetIds_eq {initial : Session}
    (hrun : initial.performAll tasks = (trees, s, failures))
    (htasks : ∀ task ∈ tasks, ∀ x ∈ task.identifiers, x.id = none) :
    trees.map Task.forgetIds = tasks := by
  have hmap := initial.map_forgetIds_performAll tasks
  rw [hrun, List.map_congr_left fun task h => Task.forgetIds_eq_self (htasks task h)] at hmap
  rw [hmap, List.map_id']

theorem map_forgetIds_blocks (trees : List Task) :
    (trees.filterMap Task.block?).map Block.forgetIds =
      (trees.map Task.forgetIds).filterMap Task.block? := by
  rw [List.map_filterMap, List.filterMap_map]
  congr 1
  funext tree
  cases tree <;> rfl

theorem map_forgetIds_declarations (trees : List Task) :
    (trees.filterMap Task.declaration?).map (Declaration.relabel Identifier.forgetId) =
      (trees.map Task.forgetIds).filterMap Task.declaration? := by
  rw [List.map_filterMap, List.filterMap_map]
  congr 1
  funext tree
  cases tree <;> rfl

theorem unbound_items_of_settled (h : ∀ tree ∈ trees, tree.Settled) :
    Unbound ((trees.filterMap Task.declaration?).flatMap fun d => marksOf d.items) := by
  intro m hm
  obtain ⟨d, hd, hm⟩ := List.mem_flatMap.1 hm
  obtain ⟨tree, htree, heq⟩ := List.mem_filterMap.1 hd
  cases tree with
  | add d' =>
    cases heq
    exact (h _ htree).2 m hm
  | resolve b => cases heq

theorem records_resolveDeclarations {ds : List Declaration} {t : State}
    (h : resolveDeclarations s.surroundings s.pending s.start = (ds, t)) (ht : t.failure = none)
    (hunbound : Unbound (s.pending.flatMap fun d => marksOf d.items)) :
    Records s.surroundings s.start t (ds.flatMap fun d => marksOf d.items) ∧
      ∀ m ∈ ds.flatMap (fun d => marksOf d.items), m.isBound := by
  have htracks := tracks_declarations s.surroundings s.pending
  have hrecords := htracks.records s.start hunbound
  have hcomplete := htracks.complete s.start
  rw [h] at hrecords hcomplete
  have hbound := (hcomplete ht).2
  rw [List.filter_eq_self.2 hbound] at hrecords
  exact ⟨hrecords, hbound⟩

theorem marks_append_perm {ds : List Declaration} {marks : List Mark} {initial : Session}
    (h : Accounts initial s trees marks) (hsettled : ∀ tree ∈ trees, tree.Settled)
    (hds : ds.map Declaration.nameMark =
      (trees.filterMap Task.declaration?).map Declaration.nameMark) :
    (marks ++ ds.flatMap fun d => marksOf d.items).Perm
      ((trees.filterMap Task.block?).flatMap (fun b => b.tree.marks) ++
        ds.flatMap Declaration.marks) := by
  have hmarks := (h.perm.trans (filter_marks_perm hsettled)).append_right
    (ds.flatMap fun d => marksOf d.items)
  rw [← hds, List.append_assoc] at hmarks
  refine hmarks.trans (List.Perm.append_left _ ?_)
  exact List.map_append_flatMap_perm ds Declaration.nameMark fun d => marksOf d.items

/--
When a session resolves all blocks and finishes all declarations that it was given, it has bound
each identifier in them once, and its sites list each of them once by its role.
-/
theorem finish_boundOnce (names : List String) {ds : List Declaration} {sites : Sites}
    (hrun : (withBuiltins names).performAll tasks = (trees, s, failures))
    (htasks : ∀ task ∈ tasks, ∀ x ∈ task.identifiers, x.id = none)
    (hfailures : ∀ failure ∈ failures, failure = none) (hfinish : s.finish = (ds, .ok sites)) :
    ((trees.filterMap Task.block?).map Block.forgetIds = tasks.filterMap Task.block? ∧
      ds.map (Declaration.relabel Identifier.forgetId) = tasks.filterMap Task.declaration?) ∧
    (treeRoles (trees.filterMap Task.block?) ds).map Prod.snd =
      (trees.filterMap Task.block?).flatMap blockIdentifiers ++ ds.flatMap Declaration.identifiers ∧
    BoundOnce sites (treeRoles (trees.filterMap Task.block?) ds) := by
  have hbuiltins := registered_withBuiltins names
  have hunbound : ∀ task ∈ tasks, Unbound task.marks :=
    fun task h => Task.unbound_marks (htasks task h)
  obtain ⟨marks, haccounts⟩ := (accounts_nil (withBuiltins names)).performAll hunbound
  have hsettled := settled_performAll (s := withBuiltins names) hunbound
  rw [hrun] at haccounts hsettled
  rw [List.nil_append] at haccounts
  obtain ⟨hsettled, hpending⟩ := hsettled hfailures
  rw [hbuiltins.pending, List.nil_append] at hpending
  obtain ⟨t, hresolve, hsuccess, rfl⟩ := exists_of_finish_eq_ok hfinish
  have hforget := map_forgetIds_resolveDeclarations s.surroundings s.pending s.start
  have hnames := map_nameMark_resolveDeclarations s.surroundings s.pending s.start
  rw [hresolve] at hforget hnames
  refine ⟨⟨?_, ?_⟩, map_snd_treeRoles _ _, ?_⟩
  · rw [map_forgetIds_blocks, map_forgetIds_eq hrun htasks]
  · rw [hforget, hpending, map_forgetIds_declarations, map_forgetIds_eq hrun htasks]
  · rw [hpending] at hnames
    have hitems := unbound_items_of_settled hsettled
    rw [← hpending] at hitems
    obtain ⟨hrecords, hbound⟩ := records_resolveDeclarations hresolve hsuccess hitems
    have htotal := haccounts.records.append_of_offers hrecords haccounts.offers
    apply htotal.boundOnce hbuiltins
    · exact (roleMarks_treeRoles_perm _ _).trans
        (marks_append_perm haccounts hsettled hnames).symm
    · rw [List.forall_mem_append]
      exact ⟨fun m hm => (haccounts.mem_marks_iff.1 hm).2, hbound⟩

/--
The tasks to add `\fun{A::m}{x}{ return A(x); }`, then the class `A`, and to resolve
`y := print; y = A(y);`.
-/
def classTasks : List Task :=
  [.add (.method { name := "A" } { name := "m" } [{ name := "x" }]
      [.return (.call (.identifier { name := "A" }) [.identifier { name := "x" }])]),
    .add (.class { name := "A" } []),
    .resolve [.expression (.declare { name := "y" } (.identifier { name := "print" })),
      .expression (.assign (.identifier { name := "y" })
        (.call (.identifier { name := "A" }) [.identifier { name := "y" }]))]]

def classRun : List Task × Session × List (Option ResolveError) :=
  (withBuiltins ["print"]).performAll classTasks

theorem boundOnce_classTasks :
    ((∀ task ∈ classTasks, ∀ x ∈ task.identifiers, x.id = none) ∧
      ∀ failure ∈ classRun.2.2, failure = none) ∧
    ∃ ds sites, classRun.2.1.finish = (ds, .ok sites) ∧
      BoundOnce sites (treeRoles (classRun.1.filterMap Task.block?) ds) := by
  have hunresolved : ∀ task ∈ classTasks, ∀ x ∈ task.identifiers, x.id = none := by decide
  have hfailures : ∀ failure ∈ classRun.2.2, failure = none := by decide +kernel
  have hok : classRun.2.1.finish.2.isOk = true := by decide +kernel
  have hrun : (withBuiltins ["print"]).performAll classTasks =
      (classRun.1, classRun.2.1, classRun.2.2) := by
    rw [Prod.eta, classRun]
  refine ⟨⟨hunresolved, hfailures⟩, ?_⟩
  cases hfinish : classRun.2.1.finish with
  | mk ds result =>
    cases result with
    | error e =>
      rw [hfinish] at hok
      cases hok
    | ok sites =>
      have h := finish_boundOnce ["print"] hrun hunresolved hfailures hfinish
      exact ⟨ds, sites, rfl, h.2.2⟩

end Session

end Resolution

end LiterateFun
