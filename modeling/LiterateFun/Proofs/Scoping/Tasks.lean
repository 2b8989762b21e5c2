import LiterateFun.Proofs.Scoping.Roles
import LiterateFun.Proofs.Scoping.Session

/-!
This module contains whole sessions. A session is given declarations to add and blocks to resolve,
one after another, and goes on after those that fail.
-/

namespace LiterateFun

namespace Resolution

inductive Task
  | add (d : Declaration)
  | resolve (b : Block)

namespace Task

def identifiers : Task → List Identifier
  | .add d => d.identifiers
  | .resolve b => blockIdentifiers b

def roles : Task → List (Role × Identifier)
  | .add d => d.roles
  | .resolve b => blockRoles b

def marks : Task → List Mark
  | .add d => d.marks
  | .resolve b => b.tree.marks

def forgetIds : Task → Task
  | .add d => .add (d.relabel Identifier.forgetId)
  | .resolve b => .resolve b.forgetIds

theorem identifiers_forgetIds (task : Task) :
    task.forgetIds.identifiers = task.identifiers.map Identifier.forgetId := by
  cases task with
  | add d => exact d.identifiers_relabel _
  | resolve b => exact blockIdentifiers_relabel _ b

theorem map_snd_roles (task : Task) : task.roles.map Prod.snd = task.identifiers := by
  cases task with
  | add d => exact d.map_snd_roles
  | resolve b => exact map_snd_blockRoles b

theorem roleMarks_perm (task : Task) : (roleMarks task.roles).Perm task.marks := by
  cases task with
  | add d => exact d.roleMarks_perm
  | resolve b => exact roleMarks_blockRoles_perm b

theorem unbound_marks {task : Task} (h : ∀ x ∈ task.identifiers, x.id = none) :
    Unbound task.marks := by
  intro m hm
  rw [← task.roleMarks_perm.mem_iff] at hm
  obtain ⟨p, hp, rfl⟩ := List.mem_map.1 hm
  rw [Role.identifier_mark]
  apply h
  rw [← map_snd_roles]
  exact List.mem_map_of_mem hp

end Task

namespace Session

/-- Do a task. The result has its tree as the session leaves it, and the failure if there is one. -/
def perform (s : Session) : Task → Task × Session × Option ResolveError
  | .add d =>
    match s.add d with
    | .ok (id, t) => (.add (d.withName { d.name with id := some id }), t, none)
    | .error e => (.add d, s, some e)
  | .resolve b =>
    let (b, t, failure) := s.resolve b
    (.resolve b, t, failure)

def performAll (s : Session) : List Task → List Task × Session × List (Option ResolveError)
  | [] => ([], s, [])
  | task :: tasks =>
    let (task, s, failure) := s.perform task
    let (tasks, s, failures) := s.performAll tasks
    (task :: tasks, s, failure :: failures)

theorem forgetIds_perform (s : Session) (task : Task) :
    (s.perform task).1.forgetIds = task.forgetIds := by
  cases task with
  | add d =>
    rw [perform]
    split
    next id _ _ =>
      have hname : ({ d.name with id := some id } : Identifier).forgetId =
          (d.relabel Identifier.forgetId).name := by
        rw [Declaration.name_relabel]
        rfl
      rw [Task.forgetIds, Declaration.withName_relabel, hname, Declaration.withName_name,
        Task.forgetIds]
    next => rfl
  | resolve b =>
    rw [perform, resolve_eq]
    exact congrArg Task.resolve (forgetIds_resolve _ b _)

theorem map_forgetIds_performAll (s : Session) (tasks : List Task) :
    (s.performAll tasks).1.map Task.forgetIds = tasks.map Task.forgetIds := by
  induction tasks generalizing s with
  | nil => rfl
  | cons task tasks ih => rw [performAll, List.map_cons, List.map_cons, forgetIds_perform, ih]

theorem exists_name_eq_of_mem_performAll {s : Session} {tasks : List Task} {tree : Task}
    (htree : tree ∈ (s.performAll tasks).1) {x : Identifier} (hx : x ∈ tree.identifiers) :
    ∃ task ∈ tasks, ∃ y ∈ task.identifiers, y.name = x.name := by
  have hmem : tree.forgetIds ∈ tasks.map Task.forgetIds := by
    rw [← map_forgetIds_performAll s]
    exact List.mem_map_of_mem htree
  obtain ⟨task, htask, heq⟩ := List.mem_map.1 hmem
  have hx' : x.forgetId ∈ task.identifiers.map Identifier.forgetId := by
    rw [← Task.identifiers_forgetIds, heq, Task.identifiers_forgetIds]
    exact List.mem_map_of_mem hx
  obtain ⟨y, hy, hname⟩ := List.mem_map.1 hx'
  exact ⟨task, htask, y, hy, Identifier.name_eq_of_forgetId_eq hname⟩

/-- What the marks tell of all that a session did since it was `initial`, with the trees it left. -/
structure Accounts (initial s : Session) (trees : List Task) (marks : List Mark) : Prop where
  records : Records initial.surroundings initial.start s.start marks
  globals : ∀ name id, s.globals.lookup name = some id →
    initial.globals.lookup name = some id ∨ Defines marks name id
  perm : marks.Perm ((trees.flatMap Task.marks).filter Mark.isBound)

theorem accounts_nil (s : Session) : Accounts s s [] [] := by
  constructor
  · exact records_nil rfl rfl rfl rfl fun _ => rfl
  · intro name id hid
    exact .inl hid
  · exact .nil

theorem Accounts.offers {initial s : Session} {trees : List Task} {marks : List Mark}
    (h : Accounts initial s trees marks) (name : String) (id : Nat)
    (hoffers : Offers s.surroundings s.start.scope name id) :
    Offers initial.surroundings initial.start.scope name id ∨ Defines marks name id := by
  obtain ⟨scope, hscope, hid⟩ | hglobal := hoffers
  · rw [List.mem_singleton.1 hscope] at hid
    cases hid
  · exact (h.globals name id hglobal).imp_left .inr

theorem Accounts.append {initial s t : Session} {trees : List Task} {marks new : List Mark}
    {task : Task} (h : Accounts initial s trees marks)
    (hrecords : Records s.surroundings s.start t.start new)
    (hglobals : ∀ name id, t.globals.lookup name = some id →
      s.globals.lookup name = some id ∨ Defines new name id)
    (hnew : task.marks.filter Mark.isBound = new) :
    Accounts initial t (trees ++ [task]) (marks ++ new) := by
  constructor
  · exact h.records.append_of_offers hrecords h.offers
  · intro name id hid
    cases hglobals name id hid with
    | inl hid =>
      exact (h.globals name id hid).imp_right fun h => h.mono (List.subset_append_left _ _)
    | inr hdefines => exact .inr (hdefines.mono (List.subset_append_right _ _))
  · rw [List.flatMap_append, List.filter_append, List.flatMap_singleton, hnew]
    exact h.perm.append_right _

theorem filter_marks_withName {d : Declaration} {name : Identifier} (hd : Unbound d.marks)
    (hname : name.forgetId = d.name.forgetId) (hbound : name.id.isSome) :
    (d.withName name).marks.filter Mark.isBound = [.definition d.qualifiedName name] := by
  have hitems : Unbound (marksOf d.items) := fun m hm => hd m (List.mem_cons_of_mem _ hm)
  have hmark : (Mark.definition d.qualifiedName name).isBound = true := hbound
  rw [Declaration.marks, qualifiedName_withName rfl hname, Declaration.name_withName,
    items_withName, List.filter_cons_of_pos hmark, hitems.filter_isBound]

theorem records_add {s t : Session} {d : Declaration} {id : Nat} (hd : d.name.id = none)
    (h : s.add d = .ok (id, t)) :
    Records s.surroundings s.start t.start
      [.definition d.qualifiedName { d.name with id := some id }] := by
  unfold Session.add at h
  split at h
  · cases h
  · cases h
    constructor
    · rfl
    · exact (List.append_nil _).symm
    · rfl
    · rfl
    · simp [start, noteRebound, hd]
    · intro name id hid
      exact .inl hid
    · intro x hx
      cases hx with
      | tail _ hx => cases hx

theorem globals_add {s t : Session} {d : Declaration} {id : Nat} (h : s.add d = .ok (id, t))
    (name : String) (other : Nat) (hother : t.globals.lookup name = some other) :
    s.globals.lookup name = some other ∨
      Defines [.definition d.qualifiedName { d.name with id := some id }] name other := by
  unfold Session.add at h
  split at h
  · cases h
  · cases h
    rw [List.lookup_cons] at hother
    split at hother
    next heq =>
      cases hother
      rw [beq_iff_eq.1 heq]
      exact .inr ⟨_, List.mem_cons_self, rfl⟩
    next => exact .inl hother

theorem records_resolve (s : Session) {b : Block} (hb : Unbound b.tree.marks) :
    Records s.surroundings s.start (s.resolve b).2.1.start
      ((s.resolve b).1.tree.marks.filter Mark.isBound) := by
  obtain ⟨hdefinitions, hreferences, hnext, hids, hrebound, -, hfound⟩ :=
    (tracks_block s.surroundings b).records s.start hb
  rw [resolve_eq]
  exact ⟨hdefinitions, hreferences, hnext, hids, hrebound, fun _ _ => .inl, hfound⟩

theorem Accounts.perform {initial s : Session} {trees : List Task} {marks : List Mark}
    (h : Accounts initial s trees marks) {task : Task} (htask : Unbound task.marks) :
    ∃ marks', Accounts initial (s.perform task).2.1 (trees ++ [(s.perform task).1]) marks' := by
  cases task with
  | add d =>
    rw [Session.perform]
    split
    next id t hadd =>
      have hd : d.name.id = none := htask _ List.mem_cons_self
      exact ⟨_, h.append (records_add hd hadd) (globals_add hadd)
        (filter_marks_withName htask rfl rfl)⟩
    next e _ =>
      have hrecords : Records s.surroundings s.start s.start [] :=
        records_nil rfl rfl rfl rfl fun _ => rfl
      exact ⟨_, h.append hrecords (fun _ _ => .inl) htask.filter_isBound⟩
  | resolve b =>
    have hglobals : (s.perform (.resolve b)).2.1.globals = s.globals := s.globals_resolve b
    refine ⟨_, h.append (s.records_resolve htask) (fun _ _ hlookup => .inl ?_) rfl⟩
    rwa [hglobals] at hlookup

theorem Accounts.performAll {initial s : Session} {trees : List Task} {marks : List Mark}
    (h : Accounts initial s trees marks) {tasks : List Task}
    (htasks : ∀ task ∈ tasks, Unbound task.marks) :
    ∃ marks', Accounts initial (s.performAll tasks).2.1 (trees ++ (s.performAll tasks).1)
      marks' := by
  induction tasks generalizing s trees marks with
  | nil =>
    rw [Session.performAll, List.append_nil]
    exact ⟨marks, h⟩
  | cons task tasks ih =>
    obtain ⟨htask, htasks⟩ := List.forall_mem_cons.1 htasks
    obtain ⟨marks₁, h₁⟩ := h.perform htask
    obtain ⟨marks₂, h₂⟩ := ih h₁ htasks
    rw [List.append_assoc] at h₂
    exact ⟨marks₂, h₂⟩

end Session

end Resolution

end LiterateFun
