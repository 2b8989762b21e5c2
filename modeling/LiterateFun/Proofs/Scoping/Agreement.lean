import LiterateFun.Compile
import LiterateFun.Proofs.Scoping.Renaming
import LiterateFun.Proofs.Scoping.WriteOnce

/-!
This module contains the agreement of the two ways to compile declarations: as the statements of a
block, whose scope knows their names, and as declarations that are added to a session, where their
names are global.
-/

namespace LiterateFun

theorem Generator.ofBlock_declarations (ds : List Declaration) :
    Generator.ofBlock (ds.map .declaration) = Generator.ofDeclarations ds :=
  List.foldl_map

namespace Resolution

def sameRenaming : Renaming where
  id id := id
  span span := span

theorem sameRenaming_identifier (x : Identifier) : sameRenaming.identifier x = x :=
  Renaming.identifier_eq_self (fun _ => rfl) fun _ _ => rfl

theorem map_sameRenaming (xs : List Identifier) : xs.map sameRenaming.identifier = xs :=
  map_eq_self fun x _ => sameRenaming_identifier x

theorem map_relabel_sameRenaming (ds : List Declaration) :
    ds.map (Declaration.relabel sameRenaming.identifier) = ds := by
  rw [List.map_congr_left fun d _ => d.relabel_eq_self fun x _ => sameRenaming_identifier x]
  exact List.map_id' ds

theorem sameRenaming_outcome (o : Except ResolveError Sites) : sameRenaming.outcome o = o := by
  cases o with
  | ok sites =>
    obtain ⟨definitions, references, rebound⟩ := sites
    simp only [Renaming.outcome, Renaming.sites, Except.map, Except.mapError, map_sameRenaming]
  | error e =>
    have he : sameRenaming.error e = e := Renaming.error_eq_self (fun _ => rfl) e
    simp only [Renaming.outcome, Except.map, Except.mapError, he]

theorem resolveStatements_declarations (around : Surroundings) (ds : List Declaration) :
    resolveStatements around (ds.map .declaration) =
      List.map .declaration <$> Session.resolveDeclarations around ds := by
  induction ds with
  | nil => rfl
  | cons d ds ih =>
    funext s
    simp only [List.map_cons, resolveStatements, Statement.resolve, Session.resolveDeclarations,
      bind_apply, pure_apply, map_apply, ih]

namespace Session

def resolveThenFinish (s : Session) (b : Block) : Except ResolveError (Block × Sites) :=
  match s.resolve b with
  | (_, _, some e) => .error e
  | (b, t, none) => t.finish.2.map fun sites => (b, sites)

def addThenFinish (s : Session) (ds : List Declaration) :
    Except ResolveError (List Declaration × Sites) :=
  match s.addAll ds with
  | (_, some e) => .error e
  | (t, none) => t.finish.2.map fun sites => (t.finish.1, sites)

def added (s : Session) (d : Declaration) : Session where
  globals := (d.qualifiedName, s.nextId) :: s.globals
  nextId := s.nextId + 1
  sites := { s.sites with
    definitions := s.sites.definitions ++ [{ d.name with id := some s.nextId }]
    rebound := noteRebound s.sites.rebound d.name }
  pending := s.pending ++ [d.withName { d.name with id := some s.nextId }]
  scope := s.scope
  parents := s.parents
  idle := s.idle

theorem lookup_added (s : Session) (d : Declaration) (name : String) :
    (s.added d).globals.lookup name =
      if name = d.qualifiedName then some s.nextId else s.globals.lookup name := by
  rw [added, List.lookup_cons]
  by_cases hname : name = d.qualifiedName
  · rw [if_pos hname, hname, beq_self_eq_true]
  · rw [if_neg hname, beq_false_of_ne hname]

theorem addAll_cons_of_new {s : Session} {d : Declaration}
    (h : s.globals.lookup d.qualifiedName = none) (ds : List Declaration) :
    s.addAll (d :: ds) = (s.added d).addAll ds := by
  rw [addAll, add, h]
  rfl

theorem addAll_cons_of_known {s : Session} {d : Declaration}
    (h : (s.globals.lookup d.qualifiedName).isSome) (ds : List Declaration) :
    s.addAll (d :: ds) = (s, some (.duplicateDefinition d.qualifiedName d.name.span)) := by
  rw [addAll, add, if_pos h]

structure Registers (globals : List (String × Nat)) (s : Session) (u : State) : Prop where
  running : u.failure = none
  nextId : u.nextId = s.nextId
  definitions : u.definitions = s.sites.definitions
  references : u.references = s.sites.references
  rebound : u.rebound = s.sites.rebound
  lookup : ∀ name, s.globals.lookup name = (u.scope.id? name).or (globals.lookup name)
  notReserved : ∀ name, u.scope.find? name ≠ some .reserved

theorem Registers.define {globals : List (String × Nat)} {s : Session} {u : State}
    (h : Registers globals s u) {d : Declaration} (hd : globals.lookup d.qualifiedName = none)
    (hnew : s.globals.lookup d.qualifiedName = none) :
    (define d.qualifiedName d.name u).1 = { d.name with id := some s.nextId } ∧
      Registers globals (s.added d) (define d.qualifiedName d.name u).2 := by
  have hunbound : ¬u.scope.isBound d.qualifiedName := by
    have hlookup := h.lookup d.qualifiedName
    rw [hnew, hd, Option.or_none] at hlookup
    rw [Scope.isBound_eq_isSome_id?, ← hlookup]
    simp
  have hrunning : ¬u.failure.isSome := by simp [h.running]
  rw [define_apply, if_neg hunbound, introduce, if_neg hrunning]
  refine ⟨by rw [h.nextId], h.running, ?_, ?_, h.references, ?_, ?_, ?_⟩
  · exact congrArg (· + 1) h.nextId
  · simp only [added, h.definitions, h.nextId]
  · simp only [added, h.rebound]
  · intro name
    rw [lookup_added, Scope.id?_bind, h.nextId]
    by_cases hname : name = d.qualifiedName
    · rw [if_pos hname, if_pos hname, Option.some_or]
    · rw [if_neg hname, if_neg hname, h.lookup name]
  · intro name
    simp only [Scope.bind, Scope.find?_cons]
    split
    · simp
    · exact h.notReserved name

theorem Registers.hoist {globals : List (String × Nat)} {s : Session} {u : State}
    (h : Registers globals s u) {ds : List Declaration}
    (hds : ∀ d ∈ ds, globals.lookup d.qualifiedName = none) :
    match s.addAll ds with
    | (_, some e) => (Block.hoist (ds.map .declaration) u).2.failure = some e
    | (t, none) => Registers globals t (Block.hoist (ds.map .declaration) u).2 ∧
      ∃ new, t.pending = s.pending ++ new ∧
        Block.withNames (ds.map .declaration) (Block.hoist (ds.map .declaration) u).1 =
          new.map .declaration := by
  induction ds generalizing s u with
  | nil => exact ⟨h, [], (List.append_nil _).symm, rfl⟩
  | cons d ds ih =>
    obtain ⟨hd, hds⟩ := List.forall_mem_cons.1 hds
    rw [List.map_cons, Block.hoist]
    cases hknown : s.globals.lookup d.qualifiedName with
    | some id =>
      rw [addAll_cons_of_known (by rw [hknown]; rfl)]
      have hbound : u.scope.isBound d.qualifiedName := by
        have hlookup := h.lookup d.qualifiedName
        rw [hknown, hd, Option.or_none] at hlookup
        rw [Scope.isBound_eq_isSome_id?, ← hlookup]
        rfl
      have hfailure : (Resolution.define d.qualifiedName d.name u).2.failure =
          some (.duplicateDefinition d.qualifiedName d.name.span) := by
        rw [define_apply, if_pos hbound]
        exact failure_fail h.running _
      have hstops := (hoists_hoist (ds.map .declaration)).stops
        (Resolution.define d.qualifiedName d.name u).2 (by rw [hfailure]; rfl)
      simp only [bind_apply, pure_apply, hstops, hfailure]
    | none =>
      rw [addAll_cons_of_new hknown]
      obtain ⟨hname, hadded⟩ := h.define hd hknown
      have hrest := ih hadded hds
      simp only [bind_apply, pure_apply, hname]
      cases hall : (s.added d).addAll ds with
      | mk t failure =>
        rw [hall] at hrest
        cases failure with
        | some e => exact hrest
        | none =>
          obtain ⟨hregisters, new, hpending, hnames⟩ := hrest
          refine ⟨hregisters, d.withName { d.name with id := some s.nextId } :: new, ?_, ?_⟩
          · rw [hpending, added, List.append_assoc]
            rfl
          · rw [Block.withNames, hnames, List.map_cons]

theorem Registered.lookup_eq_none {names : List String} {s : Session} (h : Registered names s)
    {name : String} (hname : name ∉ names) : s.globals.lookup name = none := by
  rw [← h.mem_iff] at hname
  rw [List.lookup_eq_none_iff]
  intro p hp
  rw [bne_iff_ne]
  rintro rfl
  exact hname (List.mem_map_of_mem hp)

theorem registers_start (s : Session) : Registers s.globals s s.start := by
  refine ⟨rfl, rfl, rfl, rfl, rfl, ?_, ?_⟩
  · intro name
    rfl
  · intro name h
    cases h

theorem Registers.sameView {globals : List (String × Nat)} {s : Session} {u : State}
    (h : Registers globals s u) :
    sameRenaming.SameView (Surroundings.enter ⟨[], globals⟩ []) s.surroundings u.scope [] := by
  constructor
  · intro name
    have hfind : s.surroundings.find? [] name = s.globals.lookup name := rfl
    rw [hfind, h.lookup, Surroundings.find?_eq_or _ u.scope, Surroundings.find?_enter]
    exact Option.map_id'.symm
  · intro name
    rw [Surroundings.isReserved_eq_or _ u.scope, decide_eq_false (h.notReserved name)]
    rfl

def Registers.twins {globals : List (String × Nat)} {s : Session} {u : State}
    (h : Registers globals s u) (last : Nat) : Twins sameRenaming where
  first := u
  second := s.start
  last := last
  carries id hle _ := by
    have hnext := h.nextId
    change id = s.nextId + (id - u.nextId)
    omega

theorem Registers.resolveDeclarations {globals : List (String × Nat)} {s : Session} {u : State}
    (h : Registers globals s u) (ds : List Declaration) :
    (Session.resolveDeclarations s.surroundings ds s.start).1 =
        (Session.resolveDeclarations (Surroundings.enter ⟨[], globals⟩ []) ds u).1 ∧
      outcome (Session.resolveDeclarations s.surroundings ds s.start).2 =
        outcome (Session.resolveDeclarations (Surroundings.enter ⟨[], globals⟩ []) ds u).2 := by
  generalize hinside :
    Session.resolveDeclarations (Surroundings.enter ⟨[], globals⟩ []) ds u = inside
  have hstart : (h.twins inside.2.nextId).Aligned
      (sameRenaming.SameView (Surroundings.enter ⟨[], globals⟩ []) s.surroundings) u s.start := by
    apply Twins.aligned_start h.sameView
    rw [twins, h.running]
    rfl
  have hfollows := (Twins.follows_declarations (fun _ _ h => h) ds).aligned _ _ hstart
  rw [hinside, map_relabel_sameRenaming] at hfollows
  obtain ⟨htrees, hend⟩ := hfollows (Nat.le_refl _)
  constructor
  · rw [htrees, map_relabel_sameRenaming]
  · rw [hend.outcome_eq, sameRenaming_outcome]
    · rw [twins, map_sameRenaming, h.definitions]
      rfl
    · rw [twins, map_sameRenaming, h.references]
      rfl
    · rw [twins, map_sameRenaming, h.rebound]
      rfl

theorem resolveThenFinish_eq {s : Session} (hs : s.pending = []) (b : Block) :
    s.resolveThenFinish b = (outcome (b.resolve s.surroundings s.start).2).map
      fun sites => ((b.resolve s.surroundings s.start).1, sites) := by
  rw [resolveThenFinish, resolve_eq, outcome]
  cases (b.resolve s.surroundings s.start).2.failure with
  | some e => rfl
  | none =>
    simp only [finish_eq, resume, hs]
    rfl

theorem resolve_declarations {s : Session} {ds : List Declaration}
    (hds : ∀ d ∈ ds, s.globals.lookup d.qualifiedName = none) :
    match s.addAll ds with
    | (_, some e) =>
      outcome (Block.resolve s.surroundings (ds.map .declaration) s.start).2 = .error e
    | (t, none) => ∃ new, t.pending = s.pending ++ new ∧
      (Block.resolve s.surroundings (ds.map .declaration) s.start).1 =
        (Session.resolveDeclarations t.surroundings new t.start).1.map .declaration ∧
      outcome (Block.resolve s.surroundings (ds.map .declaration) s.start).2 =
        outcome (Session.resolveDeclarations t.surroundings new t.start).2 := by
  have hhoist := s.registers_start.hoist hds
  have hentered : ({ s.start with scope := [] } : State) = s.start := rfl
  rw [resolve_eq_withNames, inScope_apply, hentered]
  simp only [bind_apply]
  generalize Block.hoist (ds.map .declaration) s.start = hoisted at hhoist
  cases hall : s.addAll ds with
  | mk t failure =>
    rw [hall] at hhoist
    cases failure with
    | some e =>
      have hfailure : hoisted.2.failure = some e := hhoist
      have hstops := (resolves_statements (s.surroundings.enter s.start.scope)
        (Block.withNames (ds.map .declaration) hoisted.1)).stops hoisted.2 (by rw [hfailure]; rfl)
      rw [hstops]
      simp only [outcome, hfailure]
    | none =>
      obtain ⟨hregisters, new, hpending, hnames⟩ := hhoist
      obtain ⟨htrees, houtcome⟩ := hregisters.resolveDeclarations new
      rw [hnames, resolveStatements_declarations]
      exact ⟨new, hpending, congrArg (List.map Statement.declaration) htrees.symm, houtcome.symm⟩

/--
Declarations that stand in a block and declarations that are added to a session are resolved in the
same way, and fail in the same way; and what they are resolved to generates the same code.
-/
theorem resolveThenFinish_eq_addThenFinish (names : List String) {ds : List Declaration}
    (hds : ∀ d ∈ ds, d.qualifiedName ∉ names) :
    (withBuiltins names).resolveThenFinish (ds.map .declaration) =
        ((withBuiltins names).addThenFinish ds).map
          (fun resolved => (resolved.1.map .declaration, resolved.2)) ∧
      ∀ resolved sites, (withBuiltins names).addThenFinish ds = .ok (resolved, sites) →
        (Generator.ofBlock (resolved.map .declaration)).code =
          (Generator.ofDeclarations resolved).code := by
  have hbuiltins := registered_withBuiltins names
  have hnew : ∀ d ∈ ds, (withBuiltins names).globals.lookup d.qualifiedName = none := by
    intro d hd
    exact hbuiltins.lookup_eq_none (hds d hd)
  constructor
  · have hagree := resolve_declarations hnew
    rw [resolveThenFinish_eq hbuiltins.pending, addThenFinish]
    cases hall : (withBuiltins names).addAll ds with
    | mk t failure =>
      rw [hall] at hagree
      cases failure with
      | some e =>
        rw [hagree]
        rfl
      | none =>
        obtain ⟨new, hpending, htrees, houtcome⟩ := hagree
        rw [hbuiltins.pending, List.nil_append] at hpending
        simp only [htrees, houtcome, finish_eq, hpending]
        cases outcome (Session.resolveDeclarations t.surroundings new t.start).2 <;> rfl
  · intro resolved sites _
    rw [Generator.ofBlock_declarations]

/--
The declarations `\fun{f}{x}{ y := A(x); return f(y); }`, `\class{A}{ }` and
`\fun{A::f}{}{ if f { A = print; } }`.
-/
def mutualDeclarations : List Declaration :=
  [.function { name := "f" } [{ name := "x" }]
    [.expression (.declare { name := "y" }
      (.call (.identifier { name := "A" }) [.identifier { name := "x" }])),
     .return (.call (.identifier { name := "f" }) [.identifier { name := "y" }])],
   .class { name := "A" } [],
   .method { name := "A" } { name := "f" } []
    [.conditional (.identifier { name := "f" })
      [.expression (.assign (.identifier { name := "A" }) (.identifier { name := "print" }))]
      none]]

theorem agree_mutualDeclarations :
    ((∀ d ∈ mutualDeclarations, d.qualifiedName ∉ ["print"]) ∧
      ((withBuiltins ["print"]).addThenFinish mutualDeclarations).isOk) ∧
    (withBuiltins ["print"]).resolveThenFinish (mutualDeclarations.map .declaration) =
      ((withBuiltins ["print"]).addThenFinish mutualDeclarations).map
        fun resolved => (resolved.1.map .declaration, resolved.2) := by
  have hnames : ∀ d ∈ mutualDeclarations, d.qualifiedName ∉ ["print"] := by decide
  have hok : ((withBuiltins ["print"]).addThenFinish mutualDeclarations).isOk := by decide +kernel
  exact ⟨⟨hnames, hok⟩, (resolveThenFinish_eq_addThenFinish ["print"] hnames).1⟩

end Session

end Resolution

end LiterateFun
