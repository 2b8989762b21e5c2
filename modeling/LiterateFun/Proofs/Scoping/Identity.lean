import LiterateFun.Proofs.Scoping.Tasks
import Mathlib.Data.List.Dedup

/-!
This module contains the identities of bindings over whole sessions. The definitions that a session
records have consecutive ids after those of the builtins, and every reference has the id of a
builtin or of a recorded definition of its name.
-/

namespace LiterateFun

namespace Resolution

theorem Records.name_eq {around : Surroundings} {s t : State} {marks : List Mark}
    (h : Records around s t marks) {name₁ name₂ : String} {x₁ x₂ : Identifier}
    (h₁ : .definition name₁ x₁ ∈ marks) (h₂ : .definition name₂ x₂ ∈ marks) (hid : x₁.id = x₂.id) :
    name₁ = name₂ := by
  -- Different definitions have different ids, so that an id tells the name of its definition.
  have hnodup : ((marks.filterMap Mark.definition?).map fun p => p.2.id).Nodup := by
    rw [h.ids]
    exact List.Nodup.map (fun _ _ h => Option.some.inj h) List.nodup_range'
  have hmem₁ : (name₁, x₁) ∈ marks.filterMap Mark.definition? := List.mem_filterMap.2 ⟨_, h₁, rfl⟩
  have hmem₂ : (name₂, x₂) ∈ marks.filterMap Mark.definition? := List.mem_filterMap.2 ⟨_, h₂, rfl⟩
  have heq := List.inj_on_of_nodup_map hnodup hmem₁ hmem₂ hid
  exact congrArg Prod.fst heq

namespace Session

structure Registered (names : List String) (s : Session) : Prop where
  nodup : (s.globals.map Prod.fst).Nodup
  mem_iff : ∀ name, name ∈ s.globals.map Prod.fst ↔ name ∈ names
  nextId : s.nextId = s.globals.length + 1
  ids : s.globals.map Prod.snd = (List.range' 1 s.globals.length).reverse
  sites : s.sites = {}
  pending : s.pending = []

theorem Registered.register {names : List String} {s : Session} (h : Registered names s)
    (name : String) : Registered (names ++ [name]) (withBuiltins.register s name) := by
  unfold withBuiltins.register
  have hlookup : (s.globals.lookup name).isSome ↔ name ∈ names := by
    rw [← h.mem_iff, Option.isSome_iff_ne_none, ne_eq, List.lookup_eq_none_iff]
    simp
  split
  next hsome =>
    refine ⟨h.nodup, ?_, h.nextId, h.ids, h.sites, h.pending⟩
    intro other
    rw [h.mem_iff, List.mem_append, List.mem_singleton]
    constructor
    · exact .inl
    · rintro (hother | rfl)
      · exact hother
      · exact hlookup.1 hsome
  next hnone =>
    constructor
    · rw [List.map_cons, List.nodup_cons]
      refine ⟨?_, h.nodup⟩
      rw [h.mem_iff, ← hlookup]
      exact hnone
    · intro other
      rw [List.map_cons, List.mem_cons, h.mem_iff, List.mem_append, List.mem_singleton, or_comm]
    · rw [h.nextId, List.length_cons]
    · rw [List.map_cons, List.length_cons, List.range'_1_concat, List.reverse_append, h.ids,
        h.nextId, Nat.add_comm 1]
      rfl
    · exact h.sites
    · exact h.pending

theorem registered_withBuiltins (names : List String) : Registered names (withBuiltins names) := by
  have hfoldl : ∀ rest known s, Registered known s →
      Registered (known ++ rest) (rest.foldl withBuiltins.register s) := by
    intro rest
    induction rest with
    | nil =>
      intro known s h
      rw [List.append_nil]
      exact h
    | cons name rest ih =>
      intro known s h
      have := ih (known ++ [name]) _ (h.register name)
      rw [List.append_assoc] at this
      exact this
  apply hfoldl names []
  constructor
  · exact List.nodup_nil
  · intro name
    rfl
  · rfl
  · rfl
  · rfl
  · rfl

theorem Registered.length_globals {names : List String} {s : Session} (h : Registered names s) :
    s.globals.length = names.dedup.length := by
  have hperm : (s.globals.map Prod.fst).Perm names.dedup := by
    rw [List.perm_ext_iff_of_nodup h.nodup (List.nodup_dedup names)]
    intro name
    rw [h.mem_iff, List.mem_dedup]
  rw [← hperm.length_eq, List.length_map]

/-- A name that includes `::`, as the qualified name of a method does. -/
def IsQualified (name : String) : Prop :=
  "::".toList <:+: name.toList

instance : DecidablePred IsQualified :=
  fun name => inferInstanceAs (Decidable ("::".toList <:+: name.toList))

theorem isQualified_append (owner name : String) : IsQualified (owner ++ "::" ++ name) := by
  refine ⟨owner.toList, name.toList, ?_⟩
  simp

/-- A definition that some trees have, and that is not the name of a method. -/
structure IsPlain (trees : List Task) (d : Identifier) : Prop where
  definition : ∃ role, role ≠ .reference ∧ (role, d) ∈ trees.flatMap Task.roles
  notMethod : ∀ role, (role, d) ∈ trees.flatMap Task.roles → ¬role.isMethod

theorem exists_role_of_mem_marks {trees : List Task} {m : Mark}
    (h : m ∈ trees.flatMap Task.marks) :
    ∃ role x, (role, x) ∈ trees.flatMap Task.roles ∧ role.mark x = m := by
  obtain ⟨tree, htree, hm⟩ := List.mem_flatMap.1 h
  rw [← tree.roleMarks_perm.mem_iff] at hm
  obtain ⟨⟨role, x⟩, hp, heq⟩ := List.mem_map.1 hm
  exact ⟨role, x, List.mem_flatMap.2 ⟨tree, htree, hp⟩, heq⟩

theorem exists_identifier_of_mem_marks {trees : List Task} {m : Mark}
    (h : m ∈ trees.flatMap Task.marks) : ∃ tree ∈ trees, m.identifier ∈ tree.identifiers := by
  obtain ⟨role, x, hrole, rfl⟩ := exists_role_of_mem_marks h
  obtain ⟨tree, htree, hp⟩ := List.mem_flatMap.1 hrole
  refine ⟨tree, htree, ?_⟩
  rw [Role.identifier_mark, ← tree.map_snd_roles]
  exact List.mem_map_of_mem hp

theorem mark_mem_marks {trees : List Task} {role : Role} {x : Identifier}
    (h : (role, x) ∈ trees.flatMap Task.roles) : role.mark x ∈ trees.flatMap Task.marks := by
  obtain ⟨tree, htree, hp⟩ := List.mem_flatMap.1 h
  refine List.mem_flatMap.2 ⟨tree, htree, ?_⟩
  rw [← tree.roleMarks_perm.mem_iff]
  exact List.mem_map_of_mem hp

theorem Accounts.mem_marks_iff {initial s : Session} {trees : List Task} {marks : List Mark}
    (h : Accounts initial s trees marks) {m : Mark} :
    m ∈ marks ↔ m ∈ trees.flatMap Task.marks ∧ m.isBound := by
  rw [h.perm.mem_iff, List.mem_filter]

theorem Accounts.isPlain {initial s : Session} {trees : List Task} {marks : List Mark}
    (h : Accounts initial s trees marks) {name : String} {d : Identifier}
    (hd : .definition name d ∈ marks) (hname : ¬IsQualified name) :
    d.name = name ∧ IsPlain trees d := by
  obtain ⟨htrees, hbound⟩ := h.mem_marks_iff.1 hd
  -- A method with the id of `d` would be known under its qualified name.
  have hnotMethod : ∀ role, (role, d) ∈ trees.flatMap Task.roles → ¬role.isMethod := by
    intro role hrole hmethod
    cases role with
    | method owner =>
      have hmark := h.mem_marks_iff.2 ⟨mark_mem_marks hrole, hbound⟩
      apply hname
      rw [h.records.name_eq hd hmark rfl]
      apply isQualified_append
    | _ => cases hmethod
  obtain ⟨role, x, hrole, hmark⟩ := exists_role_of_mem_marks htrees
  have hx : x = d := by rw [← Role.identifier_mark role x, hmark]; rfl
  subst hx
  cases role with
  | reference => cases hmark
  | method owner => exact absurd rfl (hnotMethod _ hrole)
  | _ =>
    cases hmark
    exact ⟨rfl, ⟨_, by simp, hrole⟩, hnotMethod⟩

theorem Accounts.definitions {initial s : Session} {trees : List Task} {marks : List Mark}
    (h : Accounts initial s trees marks) (hsites : initial.sites = {}) :
    s.sites.definitions = (marks.filterMap Mark.definition?).map Prod.snd := by
  have hdefinitions := h.records.definitions
  simp only [start, hsites, List.nil_append] at hdefinitions
  exact hdefinitions

theorem Accounts.references {initial s : Session} {trees : List Task} {marks : List Mark}
    (h : Accounts initial s trees marks) (hsites : initial.sites = {}) :
    s.sites.references = marks.filterMap Mark.reference? := by
  have hreferences := h.records.references
  simp only [start, hsites, List.nil_append] at hreferences
  exact hreferences

theorem Accounts.found {initial s : Session} {trees : List Task} {marks : List Mark}
    (h : Accounts initial s trees marks) {x : Identifier} (hx : .reference x ∈ marks) :
    ∃ id, x.id = some id ∧
      (initial.globals.lookup x.name = some id ∨ Defines marks x.name id) := by
  obtain ⟨id, hid, hfound⟩ := h.records.found x hx
  refine ⟨id, hid, hfound.imp_left ?_⟩
  rintro (⟨scope, hscope, hscopeId⟩ | hglobal)
  · rw [List.mem_singleton.1 hscope] at hscopeId
    cases hscopeId
  · exact hglobal

/--
The identities of a session, after any tasks: with `b` builtins, the recorded definitions have the
ids from `b + 1` on, and every recorded reference has the id of a builtin or of a definition of its
name.
-/
theorem performAll_identities (names : List String) {tasks trees : List Task} {s : Session}
    {failures : List (Option ResolveError)}
    (hrun : (withBuiltins names).performAll tasks = (trees, s, failures))
    (htasks : ∀ task ∈ tasks, ∀ x ∈ task.identifiers, x.id = none) :
    ((withBuiltins names).globals.map Prod.snd).Perm (List.range' 1 names.dedup.length) ∧
      s.sites.definitions.map Identifier.id =
        (List.range' (names.dedup.length + 1) s.sites.definitions.length).map some ∧
      ((∀ task ∈ tasks, ∀ x ∈ task.identifiers, ¬IsQualified x.name) →
        ∀ x ∈ s.sites.references, ∃ id, x.id = some id ∧
          ((withBuiltins names).globals.lookup x.name = some id ∨
            ∃ d ∈ s.sites.definitions, d.name = x.name ∧ d.id = some id ∧ IsPlain trees d)) := by
  have hbuiltins := registered_withBuiltins names
  obtain ⟨marks, haccounts⟩ := (accounts_nil (withBuiltins names)).performAll
    fun task h => Task.unbound_marks (htasks task h)
  rw [hrun, List.nil_append] at haccounts
  have hdefinitions := haccounts.definitions hbuiltins.sites
  refine ⟨?_, ?_, ?_⟩
  · rw [hbuiltins.ids, hbuiltins.length_globals]
    exact List.reverse_perm _
  · have hids := haccounts.records.ids
    simp only [start, hbuiltins.nextId, hbuiltins.length_globals] at hids
    rw [hdefinitions, List.map_map, List.length_map]
    exact hids
  · intro hnames x hx
    rw [haccounts.references hbuiltins.sites, List.mem_filterMap] at hx
    obtain ⟨m, hm, hreference⟩ := hx
    rw [Mark.reference?_eq_some_iff] at hreference
    subst hreference
    -- Resolution keeps the names, so that of `x` is one that a task has.
    have hqualified : ¬IsQualified x.name := by
      obtain ⟨tree, htree, hmem⟩ :=
        exists_identifier_of_mem_marks (haccounts.mem_marks_iff.1 hm).1
      have htree' : tree ∈ ((withBuiltins names).performAll tasks).1 := by
        rw [hrun]
        exact htree
      obtain ⟨task, htask, y, hy, hname⟩ := exists_name_eq_of_mem_performAll htree' hmem
      have hy := hnames task htask y hy
      rw [hname] at hy
      exact hy
    obtain ⟨id, hid, hglobal | ⟨d, hd, hdid⟩⟩ := haccounts.found hm
    · exact ⟨id, hid, .inl hglobal⟩
    · obtain ⟨hname, hplain⟩ := haccounts.isPlain hd hqualified
      have hmem : (x.name, d) ∈ marks.filterMap Mark.definition? :=
        List.mem_filterMap.2 ⟨_, hd, rfl⟩
      refine ⟨id, hid, .inr ⟨d, ?_, hname, hdid, hplain⟩⟩
      rw [hdefinitions]
      exact List.mem_map_of_mem hmem

/--
The tasks to resolve `x := print; y;`, to add the class `A` twice, and to resolve
`\fun{A::m}{x}{ return A(x); }`. The first one and the second class fail.
-/
def mixedTasks : List Task :=
  [.resolve [.expression (.declare { name := "x" } (.identifier { name := "print" })),
      .expression (.identifier { name := "y" })],
    .add (.class { name := "A" } []),
    .add (.class { name := "A" } []),
    .resolve [.declaration (.method { name := "A" } { name := "m" } [{ name := "x" }]
      [.return (.call (.identifier { name := "A" }) [.identifier { name := "x" }])])]]

def mixedRun : List Task × Session × List (Option ResolveError) :=
  (withBuiltins ["print", "print"]).performAll mixedTasks

theorem identities_mixedTasks :
    (mixedRun.2.2.map Option.isSome = [true, false, true, false] ∧
      ∀ task ∈ mixedTasks, ∀ x ∈ task.identifiers, x.id = none) ∧
    mixedRun.2.1.sites.definitions.map Identifier.id = [some 2, some 3, some 4, some 5] ∧
      ∀ x ∈ mixedRun.2.1.sites.references, ∃ id, x.id = some id ∧
        ((withBuiltins ["print", "print"]).globals.lookup x.name = some id ∨
          ∃ d ∈ mixedRun.2.1.sites.definitions,
            d.name = x.name ∧ d.id = some id ∧ IsPlain mixedRun.1 d) := by
  have hunresolved : ∀ task ∈ mixedTasks, ∀ x ∈ task.identifiers, x.id = none := by decide
  have hnames : ∀ task ∈ mixedTasks, ∀ x ∈ task.identifiers, ¬IsQualified x.name := by decide
  have hfailures : mixedRun.2.2.map Option.isSome = [true, false, true, false] := by
    decide +kernel
  have hlength : mixedRun.2.1.sites.definitions.length = 4 := by decide +kernel
  have hbuiltins : (["print", "print"] : List String).dedup.length = 1 := by simp
  have hrun : (withBuiltins ["print", "print"]).performAll mixedTasks =
      (mixedRun.1, mixedRun.2.1, mixedRun.2.2) := by
    rw [Prod.eta, mixedRun]
  have h := performAll_identities ["print", "print"] hrun hunresolved
  refine ⟨⟨hfailures, hunresolved⟩, ?_, h.2.2 hnames⟩
  rw [h.2.1, hlength, hbuiltins]
  rfl

end Session

end Resolution

end LiterateFun
