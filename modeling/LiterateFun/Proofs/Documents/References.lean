import LiterateFun.Proofs.Documents.Compiled
import LiterateFun.Proofs.Parsing.OwnText
import LiterateFun.Proofs.Scoping.Accepted

/-!
This module contains the references of compiled documents. A reference leads to a binding wherever
some declaration of the document mentions its name, and the others are the warnings.
-/

namespace LiterateFun

open Resolution

def Part.reference? : Part → Option (Direction × Identifier)
  | .reference direction target => some (direction, target)
  | _ => none

def Part.forgetIds : Part → Part
  | .text s => .text s
  | .declaration d span => .declaration (d.relabel Identifier.forgetId) span
  | .reference direction target => .reference direction target.forgetId

namespace Document

def references (doc : Document) : List (Direction × Identifier) :=
  doc.parts.filterMap Part.reference?

def forgetIds (doc : Document) : Document where
  parts := doc.parts.map Part.forgetIds

def Mentions (doc : Document) (name : String) : Prop :=
  ∃ d ∈ doc.declarations, ∃ x ∈ d.identifiers, x.name = name

instance (doc : Document) (name : String) : Decidable (doc.Mentions name) :=
  inferInstanceAs (Decidable (∃ d ∈ doc.declarations, ∃ x ∈ d.identifiers, x.name = name))

end Document

structure CompiledDocument.IsLinked (c : CompiledDocument) (doc : Document) : Prop where
  same : c.document.forgetIds = doc
  /-- The warnings are the references to names that no declaration mentions, in their order. -/
  warnings : c.warnings = (doc.references.filter fun r => ¬doc.Mentions r.2.name).map
    fun r => { direction := r.1, target := r.2 }
  /-- Any other reference has the id of some identifier of its name. -/
  linked : ∀ direction x, (direction, x) ∈ c.document.references → doc.Mentions x.name →
    ∃ id, x.id = some id ∧ id ≠ 0 ∧
      (∃ d ∈ c.document.declarations, ∃ y ∈ d.identifiers, y.name = x.name ∧ y.id = some id) ∧
      ((Session.withBuiltins Prelude.builtins).globals.lookup x.name = some id ∨
        ∃ y ∈ c.sites.definitions, y.id = some id)

theorem Declaration.mem_occurrences {d : Declaration} {name : String} {id : Nat} :
    id ∈ d.occurrences name ↔ ∃ x ∈ d.identifiers, x.name = name ∧ x.id = some id := by
  simp only [occurrences, List.mem_filterMap, List.mem_filter, decide_eq_true_eq, and_assoc]

theorem Declaration.occurrences_eq_nil_iff {d : Declaration} (h : ∀ x ∈ d.identifiers, x.id ≠ none)
    (name : String) : d.occurrences name = [] ↔ ∀ x ∈ d.identifiers, x.name ≠ name := by
  rw [List.eq_nil_iff_forall_not_mem]
  simp only [mem_occurrences]
  constructor
  · intro hnone x hx hname
    obtain ⟨id, hid⟩ := Option.ne_none_iff_exists'.1 (h x hx)
    exact hnone id ⟨x, hx, hname, hid⟩
  · rintro hnone id ⟨x, hx, hname, -⟩
    exact hnone x hx hname

namespace Document

section

variable {above below : List Part} {name : String} {id : Nat}

theorem exists_of_searchUp (h : searchUp above name = some id) :
    ∃ d ∈ above.filterMap Part.declaration?, id ∈ d.occurrences name := by
  obtain ⟨d, hd, hlast⟩ := List.exists_of_findSome?_eq_some h
  exact ⟨d, hd, List.mem_of_getLast? hlast⟩

theorem exists_of_searchDown (h : searchDown below name = some id) :
    ∃ d ∈ below.filterMap Part.declaration?, id ∈ d.occurrences name := by
  obtain ⟨d, hd, hfirst⟩ := List.exists_of_findSome?_eq_some h
  exact ⟨d, hd, List.mem_of_head? hfirst⟩

theorem searchUp_eq_none_iff : searchUp above name = none ↔
    ∀ d ∈ above.filterMap Part.declaration?, d.occurrences name = [] := by
  simp only [searchUp, List.findSome?_eq_none_iff, Declaration.last?, List.getLast?_eq_none_iff]

theorem searchDown_eq_none_iff : searchDown below name = none ↔
    ∀ d ∈ below.filterMap Part.declaration?, d.occurrences name = [] := by
  simp only [searchDown, List.findSome?_eq_none_iff, Declaration.first?, List.head?_eq_none_iff]

theorem search_up : search .up above below name =
    (searchUp above name).or (searchDown below name) := by
  rw [search, Option.orElse_eq_orElse, Option.orElse_eq_or]

theorem search_down : search .down above below name =
    (searchDown below name).or (searchUp above name) := by
  rw [search, Option.orElse_eq_orElse, Option.orElse_eq_or]

theorem exists_of_search {direction : Direction} (h : search direction above below name = some id) :
    ∃ d ∈ (above ++ below).filterMap Part.declaration?, id ∈ d.occurrences name := by
  have hfound : searchUp above name = some id ∨ searchDown below name = some id := by
    cases direction with
    | up =>
      rw [search_up, Option.or_eq_some_iff] at h
      exact h.imp_right And.right
    | down =>
      rw [search_down, Option.or_eq_some_iff] at h
      exact (h.imp_right And.right).symm
  rw [List.filterMap_append]
  rcases hfound with hup | hdown
  · obtain ⟨d, hd, hid⟩ := exists_of_searchUp hup
    exact ⟨d, List.mem_append_left _ hd, hid⟩
  · obtain ⟨d, hd, hid⟩ := exists_of_searchDown hdown
    exact ⟨d, List.mem_append_right _ hd, hid⟩

theorem search_eq_none_iff {direction : Direction} : search direction above below name = none ↔
    ∀ d ∈ (above ++ below).filterMap Part.declaration?, d.occurrences name = [] := by
  rw [List.filterMap_append, List.forall_mem_append, ← searchUp_eq_none_iff,
    ← searchDown_eq_none_iff]
  cases direction with
  | up => rw [search_up, Option.or_eq_none_iff]
  | down => rw [search_down, Option.or_eq_none_iff, and_comm]

end

inductive Linked (ds : List Declaration) : Part → Part → Prop
  | text (s : String) : Linked ds (.text s) (.text s)
  | declaration (d : Declaration) (span : Span) :
    Linked ds (.declaration d span) (.declaration d span)
  | found {direction : Direction} {x : Identifier} {id : Nat} {d : Declaration} (hx : x.id = none)
      (hd : d ∈ ds) (hid : id ∈ d.occurrences x.name) :
      Linked ds (.reference direction x) (.reference direction { x with id := some id })
  | dangling {direction : Direction} {x : Identifier} (hx : x.id = none)
      (h : ∀ d ∈ ds, d.occurrences x.name = []) :
      Linked ds (.reference direction x) (.reference direction x)

theorem resolvePart_of_unresolved {x : Identifier} (hx : x.id = none) (direction : Direction)
    (above below : List Part) : resolvePart above (.reference direction x) below =
      .reference direction { x with id := search direction above below x.name } := by
  simp [resolvePart, hx]

theorem linked_resolvePart {ds : List Declaration} {above below : List Part} {part : Part}
    (hds : ∀ d, d ∈ ds ↔ d ∈ (above ++ part :: below).filterMap Part.declaration?)
    (hpart : ∀ r ∈ part.reference?, r.2.id = none) :
    Linked ds part (resolvePart above part below) := by
  cases part with
  | text s => exact .text s
  | declaration d span => exact .declaration d span
  | reference direction x =>
    have hx : x.id = none := hpart _ rfl
    have hds : ∀ d, d ∈ ds ↔ d ∈ (above ++ below).filterMap Part.declaration? := by
      simpa only [List.filterMap_append, List.filterMap_cons, Part.declaration?] using hds
    rw [resolvePart_of_unresolved hx]
    cases hsearch : search direction above below x.name with
    | some id =>
      obtain ⟨d, hd, hid⟩ := exists_of_search hsearch
      exact .found hx ((hds d).2 hd) hid
    | none =>
      have hsame : ({ x with id := none } : Identifier) = x := by rw [← hx]
      rw [hsame]
      exact .dangling hx fun d hd => search_eq_none_iff.1 hsearch d ((hds d).1 hd)

theorem forall₂_linked_go {ds : List Declaration} {above parts : List Part}
    (hds : ∀ d, d ∈ ds ↔ d ∈ (above ++ parts).filterMap Part.declaration?)
    (hparts : ∀ r ∈ parts.filterMap Part.reference?, r.2.id = none) :
    List.Forall₂ (Linked ds) parts (resolveReferences.go above parts) := by
  induction parts generalizing above with
  | nil => exact .nil
  | cons part below ih =>
    have hreferences : ∀ r, r ∈ (part :: below).filterMap Part.reference? ↔
        r ∈ part.reference? ∨ r ∈ below.filterMap Part.reference? := by
      intro r
      rw [List.filterMap_cons]
      cases part <;> simp [Part.reference?, eq_comm]
    rw [resolveReferences.go]
    refine .cons (linked_resolvePart hds fun r hr => hparts r ((hreferences r).2 (.inl hr))) ?_
    refine ih ?_ fun r hr => hparts r ((hreferences r).2 (.inr hr))
    intro d
    rw [hds]
    exact (List.perm_middle.filterMap _).mem_iff

namespace withDeclarations

theorem go_cons {part : Part} (h : part.declaration? = none) (parts : List Part)
    (ds : List Declaration) : go (part :: parts) ds = part :: go parts ds := by
  cases part with
  | declaration d span => cases h
  | text s =>
    rw [go]
    nofun
  | reference direction x =>
    rw [go]
    nofun

theorem declarations_go {parts : List Part} {ds : List Declaration}
    (h : ds.length = (parts.filterMap Part.declaration?).length) :
    (go parts ds).filterMap Part.declaration? = ds := by
  induction parts generalizing ds with
  | nil => exact (List.eq_nil_of_length_eq_zero h).symm
  | cons part parts ih =>
    cases part with
    | text s =>
      rw [go_cons rfl]
      exact ih h
    | reference direction x =>
      rw [go_cons rfl]
      exact ih h
    | declaration d span =>
      cases ds with
      | nil => cases h
      | cons d' ds =>
        rw [go]
        exact congrArg (d' :: ·) (ih (Nat.succ.inj h))

theorem references_go (parts : List Part) (ds : List Declaration) :
    (go parts ds).filterMap Part.reference? = parts.filterMap Part.reference? := by
  fun_induction go parts ds with
  | case1 d' span parts d ds ih => exact ih
  | case2 part parts ds _ ih => rw [List.filterMap_cons, List.filterMap_cons, ih]
  | case3 => rfl

theorem forgetIds_go {parts : List Part} {ds : List Declaration}
    (h : ds.map (Declaration.relabel Identifier.forgetId) = parts.filterMap Part.declaration?)
    (hparts : ∀ r ∈ parts.filterMap Part.reference?, r.2.id = none) :
    (go parts ds).map Part.forgetIds = parts := by
  induction parts generalizing ds with
  | nil => rfl
  | cons part parts ih =>
    cases part with
    | text s =>
      rw [go_cons rfl, List.map_cons, ih h hparts]
      rfl
    | reference direction x =>
      obtain ⟨hx, hparts⟩ := List.forall_mem_cons.1 hparts
      have hforget : Part.forgetIds (.reference direction x) = .reference direction x := by
        rw [Part.forgetIds, Identifier.forgetId, ← hx]
      rw [go_cons rfl, List.map_cons, ih h hparts, hforget]
    | declaration d span =>
      cases ds with
      | nil => cases h
      | cons d' ds =>
        obtain ⟨hd, hds⟩ := List.cons_eq_cons.1 h
        rw [go, List.map_cons, ih hds hparts, Part.forgetIds, hd]

end withDeclarations

theorem declarations_withDeclarations {doc : Document} {ds : List Declaration}
    (h : ds.map (Declaration.relabel Identifier.forgetId) = doc.declarations) :
    (doc.withDeclarations ds).declarations = ds := by
  apply withDeclarations.declarations_go
  rw [← List.length_map (f := Declaration.relabel Identifier.forgetId), h]
  rfl

theorem resolveReferences.declarations_go (above parts : List Part) :
    (resolveReferences.go above parts).filterMap Part.declaration? =
      parts.filterMap Part.declaration? := by
  induction parts generalizing above with
  | nil => rfl
  | cons part below ih =>
    rw [resolveReferences.go, List.filterMap_cons, List.filterMap_cons, ih]
    cases part <;> rfl

theorem declarations_resolveReferences (doc : Document) :
    doc.resolveReferences.declarations = doc.declarations :=
  resolveReferences.declarations_go [] doc.parts

section

variable {ds : List Declaration} {parts parts' : List Part}

theorem forgetIds_of_linked (h : List.Forall₂ (Linked ds) parts parts') :
    parts'.map Part.forgetIds = parts.map Part.forgetIds := by
  induction h with
  | nil => rfl
  | cons hpart _ ih =>
    rw [List.map_cons, List.map_cons, ih]
    cases hpart <;> rfl

theorem warnings_of_linked (h : List.Forall₂ (Linked ds) parts parts') :
    warnings { parts := parts' } =
      ((parts.filterMap Part.reference?).filter fun r =>
        ∀ d ∈ ds, d.occurrences r.2.name = []).map
        fun r => { direction := r.1, target := r.2 } := by
  unfold warnings
  induction h with
  | nil => rfl
  | @cons part part' parts parts' hpart _ ih =>
    have hreference : ∀ direction x, (Part.reference direction x :: parts).filterMap
        Part.reference? = (direction, x) :: parts.filterMap Part.reference? := fun _ _ => rfl
    cases hpart with
    | text s => exact ih
    | declaration d span => exact ih
    | @found direction x id d _ hd hid =>
      have hmentioned : ¬∀ d ∈ ds, d.occurrences x.name = [] := by
        intro hnone
        rw [hnone d hd] at hid
        cases hid
      rw [hreference, List.filter_cons_of_neg (by simpa using hmentioned)]
      exact ih
    | dangling hx hnone =>
      rw [hreference, List.filter_cons_of_pos (by simpa using hnone), List.map_cons, ← ih]
      simp [hx]

theorem linked_of_mem_references (h : List.Forall₂ (Linked ds) parts parts') {direction : Direction}
    {x : Identifier} (hx : (direction, x) ∈ parts'.filterMap Part.reference?) :
    (∃ d ∈ ds, ∃ id ∈ d.occurrences x.name, x.id = some id) ∨
      ∀ d ∈ ds, d.occurrences x.name = [] := by
  obtain ⟨part', hpart', hreference⟩ := List.mem_filterMap.1 hx
  induction h with
  | nil => cases hpart'
  | cons hpart _ ih =>
    cases hpart' with
    | head =>
      cases hpart with
      | text s => cases hreference
      | declaration d span => cases hreference
      | found _ hd hid =>
        cases hreference
        exact .inl ⟨_, hd, _, hid, rfl⟩
      | dangling _ hnone =>
        cases hreference
        exact .inr hnone
    | tail _ hpart' => exact ih (List.mem_filterMap.2 ⟨_, hpart', hreference⟩) hpart'

end

theorem ReadsAs.unresolved {before text : List Char} {r : Remainder} (h : ReadsAs before text r) :
    ∀ q ∈ r.parts.filterMap Part.reference?, q.2.id = none := by
  induction h with
  | nil => nofun
  | text _ _ ih => exact ih
  | part hpart _ ih =>
    rw [Remainder.filterMap_afterPart (fun _ => rfl), List.forall_mem_append]
    refine ⟨?_, ih⟩
    cases hpart with
    | declaration => nofun
    | reference =>
      intro q hq
      rw [List.mem_singleton.1 hq]

theorem unresolved_references {source : String} {doc : Document} (h : ofSource source = .ok doc) :
    ∀ r ∈ doc.references, r.2.id = none := by
  obtain ⟨r, hr, h⟩ := exists_of_bind_eq_ok h
  cases h
  have hreads : ReadsAs [] source.toList r := readsAs_of_read hr
  rw [references, Remainder.filterMap_toParts (fun _ => rfl)]
  exact hreads.unresolved

theorem forall_occurrences_eq_nil_iff {doc : Document} {ds : List Declaration}
    (hds : ds.map (Declaration.relabel Identifier.forgetId) = doc.declarations)
    (hbound : ∀ d ∈ ds, ∀ x ∈ d.identifiers, x.id ≠ none) (name : String) :
    (∀ d ∈ ds, d.occurrences name = []) ↔ ¬doc.Mentions name := by
  simp only [Mentions, ← hds, List.mem_map, not_exists, not_and, forall_exists_index, and_imp,
    forall_apply_eq_imp_iff₂, Declaration.identifiers_relabel, Identifier.name_forgetId]
  refine forall₂_congr fun d hd => ?_
  rw [Declaration.occurrences_eq_nil_iff (hbound d hd)]

end Document

theorem relabelStatements_declarations (f : Identifier → Identifier) (ds : List Declaration) :
    relabelStatements f (ds.map .declaration) =
      (ds.map (Declaration.relabel f)).map .declaration := by
  induction ds with
  | nil => rfl
  | cons d ds ih => simp only [List.map_cons, relabelStatements, Statement.relabel, ih]

theorem map_forgetIds_of_resolve {s u : Session} {ds resolved : List Declaration}
    {failure : Option ResolveError}
    (hds : ∀ x ∈ blockIdentifiers (ds.map .declaration), x.id = none)
    (h : s.resolve (ds.map .declaration) = (resolved.map .declaration, u, failure)) :
    resolved.map (Declaration.relabel Identifier.forgetId) = ds := by
  have hforget := s.forgetIds_resolve (ds.map .declaration)
  rw [h, Block.forgetIds_eq_self hds, Block.forgetIds, relabelStatements_declarations] at hforget
  exact List.map_injective_iff.2 (fun _ _ h => Statement.declaration.inj h) hforget

structure CompiledDocument.Resolves (c : CompiledDocument) (doc : Document)
    (resolved : List Declaration) : Prop where
  declarations : c.document.declarations = resolved
  same : resolved.map (Declaration.relabel Identifier.forgetId) = doc.declarations
  bound : ∀ d ∈ resolved, ∀ x ∈ d.identifiers, ∃ id, x.id = some id ∧ id ≠ 0 ∧
    ((Session.withBuiltins Prelude.builtins).globals.lookup x.name = some id ∨
      ∃ d ∈ c.sites.definitions, d.id = some id)
  linked : List.Forall₂ (Document.Linked resolved) (doc.withDeclarations resolved).parts
    c.document.parts
  warnings : c.warnings = c.document.warnings

theorem exists_resolve_of_compileDocument {source : String} {c : CompiledDocument}
    (h : compileDocument source = .ok c) :
    ∃ doc u, Document.ofSource source = .ok doc ∧
      (Session.withBuiltins Prelude.builtins).resolve (doc.declarations.map .declaration) =
        (c.document.declarations.map .declaration, u, none) ∧
      c.code = (Generator.ofBlock (c.document.declarations.map .declaration)).code := by
  obtain ⟨doc, resolved, u, hsource, hresolve, -, hdocument, -, hcode⟩ :=
    exists_of_compileDocument h
  have hdeclarations : c.document.declarations = resolved := by
    rw [hdocument, Document.declarations_resolveReferences, Document.declarations_withDeclarations]
    exact map_forgetIds_of_resolve (fun x hx => (Document.identifiers_of_ofSource hsource hx).1)
      hresolve
  rw [hdeclarations]
  exact ⟨doc, u, hsource, hresolve, hcode⟩

theorem exists_resolves_of_compileDocument {source : String} {c : CompiledDocument}
    (h : compileDocument source = .ok c) :
    ∃ doc resolved, Document.ofSource source = .ok doc ∧ c.Resolves doc resolved := by
  obtain ⟨doc, resolved, u, hsource, hresolve, hsites, hdocument, hwarnings, -⟩ :=
    exists_of_compileDocument h
  have hunresolved := fun x hx => (Document.identifiers_of_ofSource hsource (x := x) hx).1
  have hsame := map_forgetIds_of_resolve hunresolved hresolve
  have hdeclarations := Document.declarations_withDeclarations hsame
  have hlinked : List.Forall₂ (Document.Linked resolved) (doc.withDeclarations resolved).parts
      c.document.parts := by
    rw [hdocument]
    refine Document.forall₂_linked_go (fun d => ?_) ?_
    · exact iff_of_eq (congrArg (d ∈ ·) hdeclarations.symm)
    · rw [Document.withDeclarations, Document.withDeclarations.references_go]
      exact Document.unresolved_references hsource
  refine ⟨doc, resolved, hsource, ?_, hsame, ?_, hlinked, hwarnings⟩
  · rw [hdocument, Document.declarations_resolveReferences, hdeclarations]
  · intro d hd x hx
    rw [← hsites]
    refine Session.exists_id_of_resolve hunresolved hresolve ?_
    rw [blockIdentifiers_declarations]
    exact List.mem_flatMap.2 ⟨d, hd, hx⟩

/--
Every reference of an accepted document leads to a binding, unless no declaration mentions its name;
the warnings are those that lead to none. A declaration mentions all the names in its text.
-/
theorem isLinked_of_compileDocument {source : String} {c : CompiledDocument}
    (h : compileDocument source = .ok c) :
    ∃ doc, Document.ofSource source = .ok doc ∧ c.IsLinked doc ∧
      ∀ d span, .declaration d span ∈ doc.parts → d.HasAllNames span source := by
  obtain ⟨doc, resolved, hsource, hresolves⟩ := exists_resolves_of_compileDocument h
  have hreferences := Document.unresolved_references hsource
  have hmentions := Document.forall_occurrences_eq_nil_iff hresolves.same fun d hd x hx => by
    obtain ⟨id, hid, -⟩ := hresolves.bound d hd x hx
    rw [hid]
    exact Option.some_ne_none id
  have hnames : ∀ d span, .declaration d span ∈ doc.parts → d.HasAllNames span source := by
    intro d span hd
    obtain ⟨before, rest, happend, hparse⟩ := Document.parsesIn_of_mem hsource hd
    exact Declaration.hasAllNames_of_parse happend hparse
  refine ⟨doc, hsource, ⟨?_, ?_, ?_⟩, hnames⟩
  · have hforget := Document.forgetIds_of_linked hresolves.linked
    rw [Document.withDeclarations, Document.withDeclarations.forgetIds_go hresolves.same
      hreferences] at hforget
    rw [Document.forgetIds, hforget]
  · rw [hresolves.warnings]
    have hwarnings := Document.warnings_of_linked hresolves.linked
    rw [Document.withDeclarations, Document.withDeclarations.references_go] at hwarnings
    simp only [hmentions] at hwarnings
    exact hwarnings
  · intro direction x hx hmentioned
    rcases Document.linked_of_mem_references hresolves.linked hx with ⟨d, hd, id, hid, hxid⟩ | hnone
    · obtain ⟨y, hy, hname, hyid⟩ := Declaration.mem_occurrences.1 hid
      obtain ⟨id', hid', hzero, hbinding⟩ := hresolves.bound d hd y hy
      cases hyid.symm.trans hid'
      rw [hname] at hbinding
      rw [hresolves.declarations]
      exact ⟨id, hxid, hzero, ⟨d, hd, y, hy, hname, hyid⟩, hbinding⟩
    · exact absurd hmentioned ((hmentions _).1 hnone)

/-- A document in which no declaration mentions the name `z`. -/
def danglingSource : String :=
  "@f !n \\fun\x7bf\x7d\x7bn\x7d\x7b return print(n); \x7d @z !print @n"

def danglingDocument : Document where
  parts := [
    .reference .up { name := "f", span := ⟨0, 2⟩ },
    .text " ",
    .reference .down { name := "n", span := ⟨3, 5⟩ },
    .text " ",
    .declaration (.function { name := "f", span := ⟨11, 12⟩ } [{ name := "n", span := ⟨14, 15⟩ }]
      [.return (.call (.identifier { name := "print", span := ⟨25, 30⟩ })
        [.identifier { name := "n", span := ⟨31, 32⟩ }])]) ⟨6, 36⟩,
    .text " ",
    .reference .up { name := "z", span := ⟨37, 39⟩ },
    .text " ",
    .reference .down { name := "print", span := ⟨40, 46⟩ },
    .text " ",
    .reference .up { name := "n", span := ⟨47, 49⟩ }]

theorem ofSource_danglingSource : Document.ofSource danglingSource = .ok danglingDocument := by
  cbv

theorem isLinked_danglingSource :
    ∃ c, compileDocument danglingSource = .ok c ∧ c.IsLinked danglingDocument ∧
      c.warnings = [{ direction := .up, target := { name := "z", span := ⟨37, 39⟩ } }] := by
  obtain ⟨c, hc⟩ :=
    exists_compileDocument ofSource_danglingSource (by decide +kernel) (by decide +kernel)
  obtain ⟨doc, hdoc, hlinked, -⟩ := isLinked_of_compileDocument hc
  cases ofSource_danglingSource.symm.trans hdoc
  refine ⟨c, hc, hlinked, ?_⟩
  rw [hlinked.warnings]
  decide +kernel

end LiterateFun
