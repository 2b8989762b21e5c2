import LiterateFun.Proofs.Scoping.Agreement
import Mathlib.Logic.Equiv.Defs

/-!
This module contains the independence of added declarations from the order in which they come. In
another order they get other ids, for their names and for the definitions in their bodies, but each
name finds the same binding: a permutation of the ids leads from the one order to the other.
-/

namespace LiterateFun

/-- Exchange `m` ids from `start` on with the `n` ids after them. -/
def exchange (start m n : Nat) : Equiv.Perm Nat where
  toFun id :=
    if id < start then id
    else if id < start + m then id + n
    else if id < start + m + n then id - m
    else id
  invFun id :=
    if id < start then id
    else if id < start + n then id + m
    else if id < start + n + m then id - n
    else id
  left_inv id := by grind
  right_inv id := by grind

theorem exchange_of_lt {start m n id : Nat} (h : id < start) : exchange start m n id = id :=
  if_pos h

theorem exchange_of_ge {start m n id : Nat} (h : start + m + n ≤ id) :
    exchange start m n id = id := by
  simp only [exchange, Equiv.coe_fn_mk]
  rw [if_neg (by omega), if_neg (by omega), if_neg (by omega)]

theorem exchange_first {start m n id : Nat} (hle : start ≤ id) (hlt : id < start + m) :
    exchange start m n id = id + n := by
  simp only [exchange, Equiv.coe_fn_mk]
  rw [if_neg (by omega), if_pos hlt]

theorem exchange_second {start m n id : Nat} (hle : start + m ≤ id) (hlt : id < start + m + n) :
    exchange start m n id = id - m := by
  simp only [exchange, Equiv.coe_fn_mk]
  rw [if_neg (by omega), if_neg (by omega), if_pos hlt]

/--
Exchange the ids of two names, of which `name` is the first, and the ids of what belongs to them,
of which `start` is the first.
-/
def exchangeTwo (name start m n : Nat) : Equiv.Perm Nat :=
  (exchange name 1 1).trans (exchange start m n)

theorem exchangeTwo_of_lt {name start m n id : Nat} (hname : name + 2 ≤ start) (h : id < start) :
    exchangeTwo name start m n id = exchange name 1 1 id := by
  apply exchange_of_lt
  simp only [exchange, Equiv.coe_fn_mk]
  grind

theorem exchangeTwo_of_ge {name start m n id : Nat} (h : name + 2 ≤ id) :
    exchangeTwo name start m n id = exchange start m n id := by
  have hname : exchange name 1 1 id = id := exchange_of_ge h
  rw [exchangeTwo, Equiv.trans_apply, hname]

def Renaming.ofIds (f : Nat → Nat) : Renaming where
  id := f
  span span := span

theorem Renaming.ofIds_comp (f g : Nat → Nat) :
    (ofIds g).identifier ∘ (ofIds f).identifier = (ofIds (g ∘ f)).identifier := by
  funext x
  simp [ofIds, identifier]

theorem Renaming.ofIds_identifier {f : Nat → Nat} {x : Identifier}
    (h : ∀ id, x.id = some id → f id = id) : (ofIds f).identifier x = x :=
  identifier_eq_self (fun _ => rfl) h

def Declaration.renumber (ids : Nat → Nat) (d : Declaration) : Declaration :=
  d.relabel (Renaming.ofIds ids).identifier

theorem Declaration.renumber_eq_self {ids : Nat → Nat} {d : Declaration}
    (h : ∀ x ∈ d.identifiers, ∀ id, x.id = some id → ids id = id) : d.renumber ids = d :=
  d.relabel_eq_self fun x hx => Renaming.ofIds_identifier (h x hx)

theorem Declaration.renumber_renumber (f g : Nat → Nat) (d : Declaration) :
    (d.renumber f).renumber g = d.renumber (g ∘ f) := by
  rw [renumber, renumber, d.relabel_relabel, Renaming.ofIds_comp, renumber]

theorem Declaration.qualifiedName_renumber (ids : Nat → Nat) (d : Declaration) :
    (d.renumber ids).qualifiedName = d.qualifiedName :=
  Declaration.qualifiedName_relabel (Renaming.ofIds ids).name_identifier d

def Declaration.numbered (d : Declaration) (id : Nat) : Declaration :=
  d.withName { d.name with id := some id }

theorem Declaration.name_mem_identifiers (d : Declaration) : d.name ∈ d.identifiers := by
  cases d <;> simp [Declaration.name, Declaration.identifiers]

theorem Declaration.mem_identifiers_withName {d : Declaration} {name x : Identifier}
    (h : x ∈ (d.withName name).identifiers) : x = name ∨ x ∈ d.identifiers := by
  cases d <;> grind [Declaration.withName, Declaration.identifiers]

theorem Declaration.renumber_numbered {d : Declaration} (h : ∀ x ∈ d.identifiers, x.id = none)
    (ids : Nat → Nat) (id : Nat) : (d.numbered id).renumber ids = d.numbered (ids id) := by
  have hd : d.renumber ids = d := by
    apply renumber_eq_self
    intro x hx id hid
    rw [h x hx] at hid
    cases hid
  rw [numbered, renumber, withName_relabel, ← renumber, hd]
  rfl

def numberedFrom (id : Nat) : List Declaration → List Declaration
  | [] => []
  | d :: ds => d.numbered id :: numberedFrom (id + 1) ds

theorem map_renumber_numberedFrom {ds : List Declaration}
    (h : ∀ d ∈ ds, ∀ x ∈ d.identifiers, x.id = none) {ids : Nat → Nat} {first : Nat}
    (hids : ∀ id, first ≤ id → id < first + ds.length → ids id = id) :
    (numberedFrom first ds).map (Declaration.renumber ids) = numberedFrom first ds := by
  induction ds generalizing first with
  | nil => rfl
  | cons d ds ih =>
    obtain ⟨hd, hds⟩ := List.forall_mem_cons.1 h
    rw [List.length_cons] at hids
    rw [numberedFrom, List.map_cons, Declaration.renumber_numbered hd,
      hids first (by omega) (by omega), ih hds]
    intro id hle hlt
    exact hids id (by omega) (by omega)

theorem map_forgetIds_numberedFrom {ds : List Declaration}
    (h : ∀ d ∈ ds, ∀ x ∈ d.identifiers, x.id = none) (first : Nat) :
    (numberedFrom first ds).map (Declaration.relabel Identifier.forgetId) = ds := by
  induction ds generalizing first with
  | nil => rfl
  | cons d ds ih =>
    obtain ⟨hd, hds⟩ := List.forall_mem_cons.1 h
    have hforget : d.relabel Identifier.forgetId = d := by
      apply d.relabel_eq_self
      intro x hx
      rw [Identifier.forgetId, ← hd x hx]
    have hname : ({ d.name with id := some first } : Identifier).forgetId = d.name := by
      rw [Identifier.forgetId, ← hd _ d.name_mem_identifiers]
    rw [numberedFrom, List.map_cons, ih hds, Declaration.numbered, Declaration.withName_relabel,
      hforget, hname, Declaration.withName_name]

namespace Resolution

theorem scope_resolve_declaration (around : Surroundings) (d : Declaration) (s : State) :
    (d.resolve around s).2.scope = s.scope := by
  cases d with
  | «class» => rfl
  | function => rfl
  | method owner => exact scope_refer around owner s

theorem scope_resolveDeclarations (around : Surroundings) (ds : List Declaration) (s : State) :
    (Session.resolveDeclarations around ds s).2.scope = s.scope := by
  induction ds generalizing s with
  | nil => rfl
  | cons d ds ih =>
    rw [Session.resolveDeclarations]
    exact (ih _).trans (scope_resolve_declaration around d s)

theorem le_resolveDeclarations (around : Surroundings) (ds : List Declaration) (s : State) :
    s.nextId ≤ (Session.resolveDeclarations around ds s).2.nextId := by
  induction ds generalizing s with
  | nil => exact Nat.le_refl _
  | cons d ds ih =>
    rw [Session.resolveDeclarations]
    exact Nat.le_trans ((resolves_declaration around d).grows s) (ih _)

theorem resolveDeclarations_append (around : Surroundings) (ds₁ ds₂ : List Declaration) :
    Session.resolveDeclarations around (ds₁ ++ ds₂) = (do
      let ds₁ ← Session.resolveDeclarations around ds₁
      let ds₂ ← Session.resolveDeclarations around ds₂
      return ds₁ ++ ds₂) := by
  induction ds₁ with
  | nil => rfl
  | cons d ds₁ ih =>
    funext s
    simp only [List.cons_append, Session.resolveDeclarations, bind_apply, pure_apply, ih]

namespace Session

/-- The declarations are resolved on the global level, from the state `u` to the state `v`. -/
structure Runs (around : Surroundings) (ds : List Declaration) (u : State)
    (resolved : List Declaration) (v : State) : Prop where
  result : resolveDeclarations around ds u = (resolved, v)
  start : u.scope = []
  failure : v.failure = none

section

variable {around : Surroundings} {ds ds₁ ds₂ rs rs₁ rs₂ : List Declaration} {u v w : State}

theorem Runs.running (h : Runs around ds u rs v) : u.failure = none := by
  have hend : (resolveDeclarations around ds u).2.failure = none := by
    rw [h.result]
    exact h.failure
  exact ((tracks_declarations around ds).complete u hend).1

theorem Runs.scope (h : Runs around ds u rs v) : v.scope = [] := by
  have hscope := scope_resolveDeclarations around ds u
  rw [h.result, h.start] at hscope
  exact hscope

theorem Runs.le (h : Runs around ds u rs v) : u.nextId ≤ v.nextId := by
  have hle := le_resolveDeclarations around ds u
  rw [h.result] at hle
  exact hle

theorem Runs.append (h₁ : Runs around ds₁ u rs₁ v) (h₂ : Runs around ds₂ v rs₂ w) :
    Runs around (ds₁ ++ ds₂) u (rs₁ ++ rs₂) w := by
  refine ⟨?_, h₁.start, h₂.failure⟩
  rw [resolveDeclarations_append, bind_apply, h₁.result, bind_apply, h₂.result]
  rfl

theorem Runs.split (h : Runs around (ds₁ ++ ds₂) u rs w) :
    ∃ rs₁ v rs₂, Runs around ds₁ u rs₁ v ∧ Runs around ds₂ v rs₂ w ∧ rs = rs₁ ++ rs₂ := by
  obtain ⟨hresult, hscope, hfailure⟩ := h
  rw [resolveDeclarations_append, bind_apply, bind_apply] at hresult
  cases hresult
  have h₂ : Runs around ds₂ (resolveDeclarations around ds₁ u).2 _ _ :=
    ⟨rfl, (scope_resolveDeclarations around ds₁ u).trans hscope, hfailure⟩
  exact ⟨_, _, _, ⟨rfl, hscope, h₂.running⟩, h₂, rfl⟩

end

theorem runs_of_finish {s : Session} {ds : List Declaration} {sites : Sites}
    (h : s.finish = (ds, .ok sites)) : ∃ v, Runs s.surroundings s.pending s.start ds v := by
  obtain ⟨v, hrun, hfailure, -⟩ := exists_of_finish_eq_ok h
  exact ⟨v, hrun, rfl, hfailure⟩

theorem Runs.finish {s : Session} {ds : List Declaration} {v : State}
    (h : Runs s.surroundings s.pending s.start ds v) : ∃ sites, s.finish = (ds, .ok sites) := by
  rw [finish_eq, h.result, outcome, h.failure]
  exact ⟨_, rfl⟩

theorem Runs.renamed {r : Renaming} {a b : Surroundings} {ds rs : List Declaration}
    {u u' v : State} (h : Runs a ds u rs u') (hview : r.SameView a b [] []) (hscope : v.scope = [])
    (hfailure : v.failure = none)
    (hcarries : ∀ id, u.nextId ≤ id → id < u'.nextId → r.id id = v.nextId + (id - u.nextId)) :
    ∃ v', Runs b (ds.map (Declaration.relabel r.identifier)) v
        (rs.map (Declaration.relabel r.identifier)) v' ∧
      v'.nextId + u.nextId = v.nextId + u'.nextId := by
  let twins : Twins r := ⟨u, v, u'.nextId, hcarries⟩
  have hstart : twins.Aligned (r.SameView a b) u v := by
    apply Twins.aligned_start
    · change r.SameView a b u.scope v.scope
      rw [h.start, hscope]
      exact hview
    · change v.failure = u.failure.map r.error
      rw [h.running, hfailure]
      rfl
  have hfollows := (Twins.follows_declarations (fun _ _ h => h) ds).aligned u v hstart
  rw [h.result] at hfollows
  obtain ⟨htrees, hend⟩ := hfollows (Nat.le_refl _)
  refine ⟨_, ⟨Prod.ext htrees rfl, hscope, ?_⟩, hend.nextId⟩
  rw [hend.failure, h.failure]
  rfl

structure Addable (s : Session) (ds : List Declaration) : Prop where
  unresolved : ∀ d ∈ ds, ∀ x ∈ d.identifiers, x.id = none
  new : ∀ d ∈ ds, s.globals.lookup d.qualifiedName = none
  distinct : (ds.map Declaration.qualifiedName).Nodup

theorem Addable.perm {s : Session} {ds ds' : List Declaration} (h : s.Addable ds)
    (hperm : ds.Perm ds') : s.Addable ds' where
  unresolved d hd := h.unresolved d (hperm.mem_iff.2 hd)
  new d hd := h.new d (hperm.mem_iff.2 hd)
  distinct := (hperm.map _).nodup_iff.1 h.distinct

theorem Addable.tail {s : Session} {d : Declaration} {ds : List Declaration}
    (h : s.Addable (d :: ds)) : (s.added d).Addable ds := by
  have hdistinct := h.distinct
  rw [List.map_cons, List.nodup_cons] at hdistinct
  constructor
  · intro c hc
    exact h.unresolved c (List.mem_cons_of_mem _ hc)
  · intro c hc
    rw [lookup_added, if_neg]
    · exact h.new c (List.mem_cons_of_mem _ hc)
    · intro hname
      apply hdistinct.1
      rw [← hname]
      exact List.mem_map_of_mem hc
  · exact hdistinct.2

theorem Addable.addAll {s : Session} {ds : List Declaration} (h : s.Addable ds) :
    s.addAll ds = (ds.foldl added s, none) := by
  induction ds generalizing s with
  | nil => rfl
  | cons d ds ih => rw [addAll_cons_of_new (h.new d List.mem_cons_self), ih h.tail, List.foldl_cons]

@[simp] theorem nextId_added (s : Session) (d : Declaration) : (s.added d).nextId = s.nextId + 1 :=
  rfl

theorem nextId_foldl_added (s : Session) (ds : List Declaration) :
    (ds.foldl added s).nextId = s.nextId + ds.length := by
  induction ds generalizing s with
  | nil => rfl
  | cons d ds ih =>
    rw [List.foldl_cons, ih, List.length_cons, nextId_added]
    omega

theorem pending_foldl_added (s : Session) (ds : List Declaration) :
    (ds.foldl added s).pending = s.pending ++ numberedFrom s.nextId ds := by
  induction ds generalizing s with
  | nil => exact (List.append_nil _).symm
  | cons d ds ih =>
    rw [List.foldl_cons, ih, added, List.append_assoc]
    rfl

theorem lookup_foldl_added {r : Renaming} {s t : Session}
    (h : ∀ name, t.globals.lookup name = (s.globals.lookup name).map r.id)
    (hnext : t.nextId = s.nextId) {ds : List Declaration}
    (hfixed : ∀ id, s.nextId ≤ id → id < s.nextId + ds.length → r.id id = id) (name : String) :
    (ds.foldl added t).globals.lookup name = ((ds.foldl added s).globals.lookup name).map r.id := by
  induction ds generalizing s t with
  | nil => exact h name
  | cons d ds ih =>
    rw [List.length_cons] at hfixed
    rw [List.foldl_cons, List.foldl_cons]
    apply ih
    · intro name
      rw [lookup_added, lookup_added, hnext]
      split
      · rw [Option.map_some, hfixed s.nextId (by omega) (by omega)]
      · exact h name
    · exact congrArg (· + 1) hnext
    · intro id hle hlt
      rw [nextId_added] at hle hlt
      exact hfixed id (by omega) (by omega)

structure Numbers (s : Session) : Prop where
  globals : s.WellNumbered
  pending : ∀ d ∈ s.pending, ∀ x ∈ d.identifiers, ∀ id, x.id = some id → id < s.nextId

theorem Numbers.added {s : Session} (h : s.Numbers) {d : Declaration}
    (hd : ∀ x ∈ d.identifiers, x.id = none) : (s.added d).Numbers := by
  refine ⟨h.globals.cons rfl rfl, ?_⟩
  intro c hc x hx id hid
  rw [Session.added, List.mem_append, List.mem_singleton] at hc
  obtain hc | rfl := hc
  · exact Nat.lt_succ_of_lt (h.pending c hc x hx id hid)
  · obtain rfl | hx := Declaration.mem_identifiers_withName hx
    · cases hid
      exact Nat.lt_succ_self _
    · rw [hd x hx] at hid
      cases hid

theorem Numbers.map_renumber_pending {s : Session} (h : s.Numbers) {ids : Nat → Nat}
    (hids : ∀ id < s.nextId, ids id = id) :
    s.pending.map (Declaration.renumber ids) = s.pending := by
  have hself : ∀ d ∈ s.pending, d.renumber ids = d := by
    intro d hd
    apply Declaration.renumber_eq_self
    intro x hx id hid
    exact hids id (h.pending d hd x hx id hid)
  rw [List.map_congr_left hself, List.map_id']

/--
When the first session can be finished, so can the second one. Its declarations are those of the
first one in some order, with other ids from `first` on.
-/
def FinishesLike (first : Nat) (s t : Session) : Prop :=
  ∀ ds sites, s.finish = (ds, .ok sites) →
    ∃ (ids : Equiv.Perm Nat) (ds' : List Declaration) (sites' : Sites),
      t.finish = (ds', .ok sites') ∧ (∀ id < first, ids id = id) ∧
        (ds.map (Declaration.renumber ids)).Perm ds'

theorem finishesLike_refl (first : Nat) (s : Session) : FinishesLike first s s := by
  intro ds sites h
  have hself : ds.map (Declaration.renumber (Equiv.refl Nat)) = ds :=
    List.map_id'' (fun d => Declaration.renumber_eq_self fun _ _ _ _ => rfl) ds
  exact ⟨Equiv.refl Nat, ds, sites, h, fun _ _ => rfl, .of_eq hself⟩

theorem FinishesLike.mono {first first' : Nat} {s t : Session} (h : FinishesLike first s t)
    (hle : first' ≤ first) : FinishesLike first' s t := by
  intro ds sites hfinish
  obtain ⟨ids, ds', sites', hfinish', hids, hperm⟩ := h ds sites hfinish
  exact ⟨ids, ds', sites', hfinish', fun id hid => hids id (Nat.lt_of_lt_of_le hid hle), hperm⟩

theorem FinishesLike.trans {first : Nat} {s t u : Session} (h₁ : FinishesLike first s t)
    (h₂ : FinishesLike first t u) : FinishesLike first s u := by
  intro ds sites hfinish
  obtain ⟨ids₁, ds₁, sites₁, hfinish₁, hids₁, hperm₁⟩ := h₁ ds sites hfinish
  obtain ⟨ids₂, ds₂, sites₂, hfinish₂, hids₂, hperm₂⟩ := h₂ ds₁ sites₁ hfinish₁
  refine ⟨ids₁.trans ids₂, ds₂, sites₂, hfinish₂, ?_, ?_⟩
  · intro id hid
    rw [Equiv.trans_apply, hids₁ id hid, hids₂ id hid]
  · have hmap := (hperm₁.map (Declaration.renumber ids₂)).trans hperm₂
    simp only [List.map_map, Function.comp_def, Declaration.renumber_renumber] at hmap
    exact hmap

theorem Runs.reorder {a b : Surroundings} {ds₀ ds₁ ds₂ ds₃ rs : List Declaration}
    {u u' v : State} (h : Runs a (ds₀ ++ (ds₁ ++ (ds₂ ++ ds₃))) u rs u') (name : Nat)
    (hname : name + 2 ≤ u.nextId) (hnext : v.nextId = u.nextId) (hscope : v.scope = [])
    (hfailure : v.failure = none)
    (hview : ∀ ids, (∀ id < u.nextId, ids id = exchange name 1 1 id) →
      (Renaming.ofIds ids).SameView a b [] []) :
    ∃ (ids : Equiv.Perm Nat) (rs' : List Declaration) (v' : State),
      (∀ id < u.nextId, ids id = exchange name 1 1 id) ∧
      Runs b (ds₀.map (Declaration.renumber ids) ++ (ds₂.map (Declaration.renumber ids) ++
        (ds₁.map (Declaration.renumber ids) ++ ds₃.map (Declaration.renumber ids)))) v rs' v' ∧
      (rs.map (Declaration.renumber ids)).Perm rs' := by
  obtain ⟨rs₀, u₀, _, h₀, htail₀, rfl⟩ := h.split
  obtain ⟨rs₁, u₁, _, h₁, htail₁, rfl⟩ := htail₀.split
  obtain ⟨rs₂, u₂, rs₃, h₂, h₃, rfl⟩ := htail₁.split
  have hle₀ := h₀.le
  have hle₁ := h₁.le
  have hle₂ := h₂.le
  let ids := exchangeTwo name u₀.nextId (u₁.nextId - u₀.nextId) (u₂.nextId - u₁.nextId)
  have hbefore : ∀ id < u₀.nextId, ids id = exchange name 1 1 id := fun id hid =>
    exchangeTwo_of_lt (by omega) hid
  have hafter : ∀ id, u₀.nextId ≤ id →
      ids id = exchange u₀.nextId (u₁.nextId - u₀.nextId) (u₂.nextId - u₁.nextId) id :=
    fun id hid => exchangeTwo_of_ge (by omega)
  have hview := hview ids fun id hid => hbefore id (by omega)
  -- The four parts are run one after another in the new order, each with the ids it has now.
  obtain ⟨v₀, k₀, hv₀⟩ := h₀.renamed hview hscope hfailure fun id hle hlt => by
    change ids id = _
    rw [hbefore id hlt, exchange_of_ge (by omega)]
    omega
  obtain ⟨v₁, k₂, hv₁⟩ := h₂.renamed hview k₀.scope k₀.failure fun id hle hlt => by
    change ids id = _
    rw [hafter id (by omega), exchange_second (by omega) (by omega)]
    omega
  obtain ⟨v₂, k₁, hv₂⟩ := h₁.renamed hview k₂.scope k₂.failure fun id hle hlt => by
    change ids id = _
    rw [hafter id (by omega), exchange_first (by omega) (by omega)]
    omega
  obtain ⟨v₃, k₃, -⟩ := h₃.renamed hview k₁.scope k₁.failure fun id hle hlt => by
    change ids id = _
    rw [hafter id (by omega), exchange_of_ge (by omega)]
    omega
  refine ⟨ids, _, v₃, fun id hid => hbefore id (by omega), k₀.append (k₂.append (k₁.append k₃)), ?_⟩
  rw [List.map_append, List.map_append, List.map_append]
  exact (List.perm_append_comm_assoc _ _ _).append_left _

theorem lookup_swap {s : Session} (hs : s.Numbers) {d₁ d₂ : Declaration} {ds : List Declaration}
    (hdistinct : d₁.qualifiedName ≠ d₂.qualifiedName) {ids : Nat → Nat}
    (hids : ∀ id < s.nextId + (ds.length + 2), ids id = exchange s.nextId 1 1 id) (name : String) :
    ((d₂ :: d₁ :: ds).foldl added s).globals.lookup name =
      (((d₁ :: d₂ :: ds).foldl added s).globals.lookup name).map ids := by
  have hfirst : ids s.nextId = s.nextId + 1 :=
    (hids _ (by omega)).trans (exchange_first (Nat.le_refl _) (by omega))
  have hsecond : ids (s.nextId + 1) = s.nextId :=
    (hids _ (by omega)).trans (exchange_second (Nat.le_refl _) (by omega))
  simp only [List.foldl_cons]
  apply lookup_foldl_added (r := Renaming.ofIds ids)
  · intro name
    simp only [lookup_added, nextId_added, Renaming.ofIds]
    by_cases h₁ : name = d₁.qualifiedName
    · have h₂ : name ≠ d₂.qualifiedName := h₁ ▸ hdistinct
      rw [if_pos h₁, if_neg h₂, if_pos h₁, Option.map_some, hfirst]
    · by_cases h₂ : name = d₂.qualifiedName
      · rw [if_neg h₁, if_pos h₂, if_pos h₂, Option.map_some, hsecond]
      · rw [if_neg h₁, if_neg h₂, if_neg h₂, if_neg h₁]
        cases hlookup : s.globals.lookup name with
        | none => rfl
        | some id =>
          have hlt : id < s.nextId := hs.globals.lt _ (mem_of_lookup_eq_some hlookup)
          rw [Option.map_some, hids _ (by omega), exchange_of_lt hlt]
  · rfl
  · intro id hle hlt
    rw [nextId_added, nextId_added] at hle hlt
    exact (hids id (by omega)).trans (exchange_of_ge (by omega))

theorem pending_swap {s : Session} (hs : s.Numbers) {d₁ d₂ : Declaration} {ds : List Declaration}
    (h : s.Addable (d₁ :: d₂ :: ds)) {ids : Nat → Nat}
    (hids : ∀ id < s.nextId + (ds.length + 2), ids id = exchange s.nextId 1 1 id) :
    ((d₂ :: d₁ :: ds).foldl added s).pending =
      s.pending.map (Declaration.renumber ids) ++
        ([d₂.numbered (s.nextId + 1)].map (Declaration.renumber ids) ++
          ([d₁.numbered s.nextId].map (Declaration.renumber ids) ++
            (numberedFrom (s.nextId + 2) ds).map (Declaration.renumber ids))) := by
  obtain ⟨hd₁, hunresolved⟩ := List.forall_mem_cons.1 h.unresolved
  obtain ⟨hd₂, hds⟩ := List.forall_mem_cons.1 hunresolved
  have hpast : s.pending.map (Declaration.renumber ids) = s.pending := by
    apply hs.map_renumber_pending
    intro id hid
    rw [hids id (by omega), exchange_of_lt hid]
  have hrest : (numberedFrom (s.nextId + 2) ds).map (Declaration.renumber ids) =
      numberedFrom (s.nextId + 2) ds := by
    apply map_renumber_numberedFrom hds
    intro id hle hlt
    rw [hids id (by omega), exchange_of_ge hle]
  rw [hpast, hrest, List.map_singleton, List.map_singleton, Declaration.renumber_numbered hd₁,
    Declaration.renumber_numbered hd₂, hids _ (by omega), hids _ (by omega),
    exchange_first (Nat.le_refl _) (by omega), exchange_second (Nat.le_refl _) (by omega),
    Nat.add_sub_cancel, pending_foldl_added]
  rfl

theorem finishesLike_swap {s : Session} (hs : s.Numbers) {d₁ d₂ : Declaration}
    {ds : List Declaration} (h : s.Addable (d₁ :: d₂ :: ds)) :
    FinishesLike s.nextId ((d₁ :: d₂ :: ds).foldl added s) ((d₂ :: d₁ :: ds).foldl added s) := by
  intro rs sites hfinish
  have hdistinct : d₁.qualifiedName ≠ d₂.qualifiedName := by
    intro heq
    have hnodup := h.distinct
    rw [List.map_cons, List.map_cons, heq, List.nodup_cons] at hnodup
    exact hnodup.1 List.mem_cons_self
  have hnext (d d' : Declaration) :
      ((d :: d' :: ds).foldl added s).start.nextId = s.nextId + (ds.length + 2) :=
    nextId_foldl_added s (d :: d' :: ds)
  have hpending : ((d₁ :: d₂ :: ds).foldl added s).pending =
      s.pending ++ ([d₁.numbered s.nextId] ++
        ([d₂.numbered (s.nextId + 1)] ++ numberedFrom (s.nextId + 2) ds)) :=
    pending_foldl_added s (d₁ :: d₂ :: ds)
  obtain ⟨u', hrun⟩ := runs_of_finish hfinish
  rw [hpending] at hrun
  obtain ⟨ids, rs', v', hids, hrun', hperm⟩ :=
    hrun.reorder (v := ((d₂ :: d₁ :: ds).foldl added s).start) s.nextId
      (by rw [hnext]; omega) (by rw [hnext, hnext]) rfl rfl fun ids hids => by
        rw [hnext] at hids
        exact sameView (lookup_swap hs hdistinct hids)
  rw [hnext] at hids
  rw [← pending_swap hs h hids] at hrun'
  obtain ⟨sites', hfinish'⟩ := hrun'.finish
  refine ⟨ids, rs', sites', hfinish', ?_, hperm⟩
  intro id hid
  rw [hids id (by omega), exchange_of_lt hid]

theorem finishesLike_of_perm {s : Session} (hs : s.Numbers) {ds ds' : List Declaration}
    (hperm : ds.Perm ds') (h : s.Addable ds) :
    FinishesLike s.nextId (ds.foldl added s) (ds'.foldl added s) := by
  induction hperm generalizing s with
  | nil => exact finishesLike_refl _ _
  | cons d _ ih =>
    have hd := h.unresolved d List.mem_cons_self
    exact (ih (hs.added hd) h.tail).mono (Nat.le_succ _)
  | swap d₂ d₁ ds => exact finishesLike_swap hs h
  | trans hperm₁ _ ih₁ ih₂ => exact (ih₁ hs h).trans (ih₂ hs (h.perm hperm₁))

theorem Addable.addThenFinish {s : Session} {ds : List Declaration} (h : s.Addable ds) :
    s.addThenFinish ds = (ds.foldl added s).finish.2.map
      fun sites => ((ds.foldl added s).finish.1, sites) := by
  rw [Session.addThenFinish, h.addAll]

theorem Addable.finish_of_ok {s : Session} {ds rs : List Declaration} {sites : Sites}
    (h : s.Addable ds) (hresult : s.addThenFinish ds = .ok (rs, sites)) :
    (ds.foldl added s).finish = (rs, .ok sites) := by
  rw [h.addThenFinish] at hresult
  generalize (ds.foldl added s).finish = finished at hresult
  obtain ⟨rs', error | sites'⟩ := finished
  · cases hresult
  · cases hresult
    rfl

theorem Addable.map_forgetIds {s : Session} {ds rs : List Declaration} {sites : Sites}
    (h : s.Addable ds) (hs : s.pending = [])
    (hfinish : (ds.foldl added s).finish = (rs, .ok sites)) :
    rs.map (Declaration.relabel Identifier.forgetId) = ds := by
  obtain ⟨v, hrun⟩ := runs_of_finish hfinish
  have hforget := map_forgetIds_resolveDeclarations (ds.foldl added s).surroundings
    (ds.foldl added s).pending (ds.foldl added s).start
  rw [hrun.result, pending_foldl_added, hs, List.nil_append,
    map_forgetIds_numberedFrom h.unresolved] at hforget
  exact hforget

theorem numbers_withBuiltins (names : List String) : (withBuiltins names).Numbers := by
  refine ⟨wellNumbered_withBuiltins names, ?_⟩
  intro d hd
  rw [(registered_withBuiltins names).pending] at hd
  cases hd

theorem map_qualifiedName_relabel {f : Identifier → Identifier} (hf : ∀ x, (f x).name = x.name)
    (ds : List Declaration) :
    (ds.map (Declaration.relabel f)).map Declaration.qualifiedName =
      ds.map Declaration.qualifiedName := by
  rw [List.map_map]
  exact List.map_congr_left fun d _ => Declaration.qualifiedName_relabel hf d

theorem Addable.isOk_of_perm {s : Session} (hs : s.Numbers) {ds ds' : List Declaration}
    (hperm : ds.Perm ds') (h : s.Addable ds) (hok : (s.addThenFinish ds).isOk) :
    (s.addThenFinish ds').isOk := by
  cases hresult : s.addThenFinish ds with
  | error e =>
    rw [hresult] at hok
    cases hok
  | ok result =>
    obtain ⟨-, rs', sites', hfinish', -⟩ :=
      finishesLike_of_perm hs hperm h _ _ (h.finish_of_ok hresult)
    rw [(h.perm hperm).addThenFinish, hfinish']
    rfl

/--
Added declarations of different names can be resolved in every order or in none. Two orders give the
same declarations, up to a permutation of the ids that leaves the builtins as they are.
-/
theorem addThenFinish_perm (names : List String) {ds ds' : List Declaration} (hperm : ds.Perm ds')
    (hunresolved : ∀ d ∈ ds, ∀ x ∈ d.identifiers, x.id = none)
    (hdistinct : (ds.map Declaration.qualifiedName).Nodup)
    (hnew : ∀ d ∈ ds, d.qualifiedName ∉ names) :
    (((withBuiltins names).addThenFinish ds).isOk ↔
        ((withBuiltins names).addThenFinish ds').isOk) ∧
      ∀ rs sites rs' sites', (withBuiltins names).addThenFinish ds = .ok (rs, sites) →
        (withBuiltins names).addThenFinish ds' = .ok (rs', sites') →
          rs.map (Declaration.relabel Identifier.forgetId) = ds ∧
          rs'.map (Declaration.relabel Identifier.forgetId) = ds' ∧
          ∃ ids : Equiv.Perm Nat, (∀ p ∈ (withBuiltins names).globals, ids p.2 = p.2) ∧
            ∀ r ∈ rs, ∀ r' ∈ rs', r.qualifiedName = r'.qualifiedName → r' = r.renumber ids := by
  have hbuiltins := registered_withBuiltins names
  have hnumbers := numbers_withBuiltins names
  have hadd : (withBuiltins names).Addable ds :=
    ⟨hunresolved, fun d hd => hbuiltins.lookup_eq_none (hnew d hd), hdistinct⟩
  have hadd' := hadd.perm hperm
  refine ⟨⟨hadd.isOk_of_perm hnumbers hperm, hadd'.isOk_of_perm hnumbers hperm.symm⟩, ?_⟩
  intro rs sites rs' sites' hresult hresult'
  have hfinish := hadd.finish_of_ok hresult
  have hfinish' := hadd'.finish_of_ok hresult'
  have hforget := hadd.map_forgetIds hbuiltins.pending hfinish
  refine ⟨hforget, hadd'.map_forgetIds hbuiltins.pending hfinish', ?_⟩
  obtain ⟨ids, _, _, heq, hids, hrenumber⟩ := finishesLike_of_perm hnumbers hperm hadd _ _ hfinish
  rw [hfinish'] at heq
  cases heq
  refine ⟨ids, fun p hp => hids _ (hnumbers.globals.lt p hp), ?_⟩
  intro r hr r' hr' hname
  obtain ⟨r₀, hr₀, rfl⟩ := List.mem_map.1 (hrenumber.mem_iff.2 hr')
  -- The declaration that `r'` comes from has the name of `r`, and there is only one.
  have hnames : (rs.map Declaration.qualifiedName).Nodup := by
    rw [← map_qualifiedName_relabel (f := Identifier.forgetId) fun _ => rfl, hforget]
    exact hdistinct
  have hname₀ : r.qualifiedName = r₀.qualifiedName :=
    hname.trans (r₀.qualifiedName_renumber ids)
  rw [List.inj_on_of_nodup_map hnames hr hr₀ hname₀]

theorem reverse_mutualDeclarations :
    ((∀ d ∈ mutualDeclarations, ∀ x ∈ d.identifiers, x.id = none) ∧
      (mutualDeclarations.map Declaration.qualifiedName).Nodup ∧
      (∀ d ∈ mutualDeclarations, d.qualifiedName ∉ ["print"])) ∧
    ∃ rs sites rs' sites',
      (withBuiltins ["print"]).addThenFinish mutualDeclarations = .ok (rs, sites) ∧
      (withBuiltins ["print"]).addThenFinish mutualDeclarations.reverse = .ok (rs', sites') ∧
      ∃ ids : Equiv.Perm Nat, ids 1 = 1 ∧
        ∀ r ∈ rs, ∀ r' ∈ rs', r.qualifiedName = r'.qualifiedName → r' = r.renumber ids := by
  have hunresolved : ∀ d ∈ mutualDeclarations, ∀ x ∈ d.identifiers, x.id = none := by decide
  have hdistinct : (mutualDeclarations.map Declaration.qualifiedName).Nodup := by decide
  have hnew : ∀ d ∈ mutualDeclarations, d.qualifiedName ∉ ["print"] := by decide
  have hok : ((withBuiltins ["print"]).addThenFinish mutualDeclarations).isOk := by decide +kernel
  obtain ⟨hiff, hids⟩ := addThenFinish_perm ["print"] (List.reverse_perm _).symm hunresolved
    hdistinct hnew
  have hok' := hiff.1 hok
  refine ⟨⟨hunresolved, hdistinct, hnew⟩, ?_⟩
  cases hresult : (withBuiltins ["print"]).addThenFinish mutualDeclarations with
  | error e =>
    rw [hresult] at hok
    cases hok
  | ok resolved =>
    cases hresult' : (withBuiltins ["print"]).addThenFinish mutualDeclarations.reverse with
    | error e =>
      rw [hresult'] at hok'
      cases hok'
    | ok resolved' =>
      obtain ⟨-, -, ids, hfixed, hrenumber⟩ := hids _ _ _ _ hresult hresult'
      have hprint : ids 1 = 1 := hfixed ("print", 1) (by decide)
      exact ⟨_, _, _, _, rfl, rfl, ids, hprint, hrenumber⟩

end Session

end Resolution

end LiterateFun
