import LiterateFun.Proofs.Documents.Reading
import LiterateFun.Proofs.Printing.Parsed
import LiterateFun.Proofs.Scoping.Agreement

/-!
This module contains what an accepted document consists of. Its declarations are resolved as those
of one block, so that what is known of accepted blocks holds for accepted documents too.
-/

namespace LiterateFun

open Resolution

namespace Resolution.Session

theorem lookup_eq_none_of_addAll {s t : Session} {ds : List Declaration}
    (h : s.addAll ds = (t, none)) {d : Declaration} (hd : d ∈ ds) :
    s.globals.lookup d.qualifiedName = none := by
  induction ds generalizing s with
  | nil => cases hd
  | cons d' ds ih =>
    cases hknown : s.globals.lookup d'.qualifiedName with
    | some id =>
      rw [addAll_cons_of_known (by rw [hknown]; rfl)] at h
      cases h
    | none =>
      rw [addAll_cons_of_new hknown] at h
      cases hd with
      | head => exact hknown
      | tail _ hd =>
        have hlater := ih h hd
        rw [lookup_added] at hlater
        split at hlater
        · cases hlater
        · exact hlater

theorem resolve_of_addAll {s t : Session} {ds resolved : List Declaration} {sites : Sites}
    (hs : s.pending = []) (hadd : s.addAll ds = (t, none))
    (hfinish : t.finish = (resolved, .ok sites)) :
    ∃ u, s.resolve (ds.map .declaration) = (resolved.map .declaration, u, none) ∧
      u.sites = sites := by
  have hagree := resolve_declarations fun d hd => lookup_eq_none_of_addAll hadd hd
  rw [hadd] at hagree
  obtain ⟨new, hpending, htrees, houtcome⟩ := hagree
  rw [hs, List.nil_append] at hpending
  rw [finish_eq, hpending, ← houtcome, Prod.mk.injEq] at hfinish
  rw [hfinish.1] at htrees
  refine ⟨s.resume (Block.resolve s.surroundings (ds.map .declaration) s.start).2, ?_⟩
  have hresult := hfinish.2
  unfold outcome at hresult
  split at hresult
  next hsuccess =>
    cases hresult
    exact ⟨by rw [resolve_eq, htrees, hsuccess], rfl⟩
  next => cases hresult

theorem records_of_resolve {s u : Session} {b resolved : Block}
    (hb : ∀ x ∈ blockIdentifiers b, x.id = none) (h : s.resolve b = (resolved, u, none)) :
    Records s.surroundings s.start u.start resolved.tree.marks ∧
      ∀ m ∈ resolved.tree.marks, m.isBound := by
  have hunbound : Unbound (Task.resolve b).marks := Task.unbound_marks hb
  have hrecords := s.records_resolve hunbound
  have hsettled := settled_perform hunbound (s := s) (by rw [perform, h])
  rw [perform, h] at hsettled
  have hbound : ∀ m ∈ resolved.tree.marks, m.isBound := hsettled.1
  rw [h, List.filter_eq_self.2 hbound] at hrecords
  exact ⟨hrecords, hbound⟩

theorem Registered.lookup_of_offers {names : List String} {s : Session} (h : Registered names s)
    {name : String} {id : Nat} (hoffers : Offers s.surroundings s.start.scope name id) :
    id ≠ 0 ∧ s.globals.lookup name = some id := by
  refine ⟨h.ne_zero_of_offers hoffers, ?_⟩
  obtain ⟨scope, hscope, hid⟩ | hglobal := hoffers
  · rw [List.mem_singleton.1 hscope] at hid
    cases hid
  · exact hglobal

theorem Registered.exists_of_defines {names : List String} {s u : Session} (h : Registered names s)
    {marks : List Mark} (hrecords : Records s.surroundings s.start u.start marks) {name : String}
    {id : Nat} (hdefines : Defines marks name id) :
    id ≠ 0 ∧ ∃ d ∈ u.sites.definitions, d.id = some id := by
  refine ⟨hrecords.ne_zero_of_defines h.nextId_start_ne_zero hdefines, ?_⟩
  obtain ⟨d, hd, hid⟩ := hdefines
  have hdefinitions : u.sites.definitions = (marks.filterMap Mark.definition?).map Prod.snd := by
    have hall := hrecords.definitions
    rwa [start, start, h.sites, List.nil_append] at hall
  have hmem : (name, d) ∈ marks.filterMap Mark.definition? := List.mem_filterMap.2 ⟨_, hd, rfl⟩
  refine ⟨d, ?_, hid⟩
  rw [hdefinitions]
  exact List.mem_map_of_mem hmem

theorem exists_id_of_resolve {names : List String} {b resolved : Block} {u : Session}
    (hb : ∀ x ∈ blockIdentifiers b, x.id = none)
    (h : (withBuiltins names).resolve b = (resolved, u, none)) {x : Identifier}
    (hx : x ∈ blockIdentifiers resolved) :
    ∃ id, x.id = some id ∧ id ≠ 0 ∧ ((withBuiltins names).globals.lookup x.name = some id ∨
      ∃ d ∈ u.sites.definitions, d.id = some id) := by
  have hbuiltins := registered_withBuiltins names
  obtain ⟨hrecords, hbound⟩ := records_of_resolve hb h
  rw [← map_snd_blockRoles] at hx
  obtain ⟨⟨role, y⟩, hp, rfl⟩ := List.mem_map.1 hx
  have hmark : role.mark y ∈ resolved.tree.marks := by
    rw [← (roleMarks_blockRoles_perm resolved).mem_iff]
    exact List.mem_map.2 ⟨_, hp, rfl⟩
  obtain ⟨id, hid⟩ := Option.isSome_iff_exists.1 (hbound _ hmark)
  have hy := Role.identifier_mark role y
  generalize role.mark y = m at hmark hid hy
  -- A definition is one of those that were recorded, and a reference has found its binding.
  cases m with
  | definition name d =>
    cases hy
    obtain ⟨hzero, hmem⟩ := hbuiltins.exists_of_defines hrecords ⟨d, hmark, hid⟩
    exact ⟨id, hid, hzero, .inr hmem⟩
  | reference d =>
    cases hy
    obtain ⟨id, hid, hoffers | hdefines⟩ := hrecords.found d hmark
    · obtain ⟨hzero, hglobal⟩ := hbuiltins.lookup_of_offers hoffers
      exact ⟨id, hid, hzero, .inl hglobal⟩
    · obtain ⟨hzero, hmem⟩ := hbuiltins.exists_of_defines hrecords hdefines
      exact ⟨id, hid, hzero, .inr hmem⟩

end Resolution.Session

theorem blockIdentifiers_declarations (ds : List Declaration) :
    blockIdentifiers (ds.map .declaration) = ds.flatMap Declaration.identifiers := by
  rw [blockIdentifiers_eq_flatMap, List.flatMap_map]
  rfl

theorem Document.identifiers_of_ofSource {source : String} {doc : Document}
    (h : ofSource source = .ok doc) {x : Identifier}
    (hx : x ∈ blockIdentifiers (doc.declarations.map .declaration)) :
    x.id = none ∧ IsWord x.name := by
  rw [blockIdentifiers_declarations, List.mem_flatMap] at hx
  obtain ⟨d, hd, hx⟩ := hx
  obtain ⟨span, taken, rest, -, hparse⟩ := exists_parsesIn_of_mem h hd
  obtain ⟨t, ht, hkind, -⟩ := Declaration.denoted_of_parse hparse x hx
  exact ⟨Declaration.unresolved_of_parse hparse x hx, Token.isWord_of_mem_scan ht hkind⟩

theorem exists_of_compileDocument {source : String} {c : CompiledDocument}
    (h : compileDocument source = .ok c) :
    ∃ doc resolved u, Document.ofSource source = .ok doc ∧
      (Session.withBuiltins Prelude.builtins).resolve (doc.declarations.map .declaration) =
        (resolved.map .declaration, u, none) ∧
      u.sites = c.sites ∧ c.document = (doc.withDeclarations resolved).resolveReferences ∧
      c.warnings = c.document.warnings ∧
      c.code = (Generator.ofBlock (resolved.map .declaration)).code := by
  unfold compileDocument at h
  cases hsource : Document.ofSource source with
  | error e =>
    rw [hsource] at h
    cases h
  | ok doc =>
    rw [hsource] at h
    simp only [Except.mapError, bind, Except.bind] at h
    split at h
    next => cases h
    next session hadd =>
      cases hfinish : session.finish with
      | mk resolved result =>
        cases result with
        | error e =>
          rw [hfinish] at h
          cases h
        | ok sites =>
          rw [hfinish] at h
          cases h
          obtain ⟨u, hresolve, hsites⟩ := Session.resolve_of_addAll
            (Session.registered_withBuiltins Prelude.builtins).pending hadd hfinish
          exact ⟨doc, resolved, u, rfl, hresolve, hsites, rfl, rfl,
            by rw [Generator.ofBlock_declarations]⟩

theorem exists_compileDocument {source : String} {doc : Document}
    (hsource : Document.ofSource source = .ok doc)
    (hadd : ((Session.withBuiltins Prelude.builtins).addAll doc.declarations).2 = none)
    (hfinish : ((Session.withBuiltins Prelude.builtins).addAll doc.declarations).1.finish.2.isOk) :
    ∃ c, compileDocument source = .ok c := by
  unfold compileDocument
  cases hall : (Session.withBuiltins Prelude.builtins).addAll doc.declarations with
  | mk session failure =>
    rw [hall] at hadd hfinish
    cases hadd
    cases hresult : session.finish with
    | mk resolved result =>
      rw [hresult] at hfinish
      cases result with
      | error e => cases hfinish
      | ok sites =>
        simp only [hsource, hall, hresult, Except.mapError, bind, Except.bind]
        exact ⟨_, rfl⟩

end LiterateFun
