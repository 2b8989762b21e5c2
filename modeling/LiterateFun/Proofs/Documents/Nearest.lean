import LiterateFun.Proofs.Basics
import LiterateFun.Proofs.Documents.References
import LiterateFun.Proofs.SourceOrder

/-!
This module contains the places where references lead to. A reference looks for its name part by
part, first in its own direction and then in the other one, and takes the first occurrence that it
meets.
-/

namespace LiterateFun

namespace Document

def declarationAt? (doc : Document) (i : Nat) : Option Declaration :=
  doc.parts[i]?.bind Part.declaration?

def MetAbove (doc : Document) (i : Nat) (name : String) (x : Identifier) : Prop :=
  ∃ j d, j < i ∧ doc.declarationAt? j = some d ∧ (d.resolved name).getLast? = some x ∧
    ∀ k d', j < k → k < i → doc.declarationAt? k = some d' → d'.resolved name = []

def MetBelow (doc : Document) (i : Nat) (name : String) (x : Identifier) : Prop :=
  ∃ j d, i < j ∧ doc.declarationAt? j = some d ∧ (d.resolved name).head? = some x ∧
    ∀ k d', i < k → k < j → doc.declarationAt? k = some d' → d'.resolved name = []

def NoneAbove (doc : Document) (i : Nat) (name : String) : Prop :=
  ∀ k d, k < i → doc.declarationAt? k = some d → d.resolved name = []

def NoneBelow (doc : Document) (i : Nat) (name : String) : Prop :=
  ∀ k d, i < k → doc.declarationAt? k = some d → d.resolved name = []

inductive LeadsTo (doc : Document) (i : Nat) (name : String) : Direction → Identifier → Prop
  | above {x : Identifier} (h : doc.MetAbove i name x) : LeadsTo doc i name .up x
  | belowInstead {x : Identifier} (hnone : doc.NoneAbove i name) (h : doc.MetBelow i name x) :
      LeadsTo doc i name .up x
  | below {x : Identifier} (h : doc.MetBelow i name x) : LeadsTo doc i name .down x
  | aboveInstead {x : Identifier} (hnone : doc.NoneBelow i name) (h : doc.MetAbove i name x) :
      LeadsTo doc i name .down x

inductive LinksAt (doc : Document) (i : Nat) : Part → Part → Prop
  | text (s : String) : LinksAt doc i (.text s) (.text s)
  | declaration (d : Declaration) (span : Span) :
      LinksAt doc i (.declaration d span) (.declaration d span)
  | kept {direction : Direction} {x : Identifier} (hx : x.id ≠ none) :
      LinksAt doc i (.reference direction x) (.reference direction x)
  | found {direction : Direction} {x y : Identifier} (hx : x.id = none)
      (h : doc.LeadsTo i x.name direction y) :
      LinksAt doc i (.reference direction x) (.reference direction { x with id := y.id })
  | dangling {direction : Direction} {x : Identifier} (hx : x.id = none)
      (h : ∀ d ∈ doc.declarations, d.resolved x.name = []) :
      LinksAt doc i (.reference direction x) (.reference direction x)

end Document

namespace Document

variable {doc : Document} {i : Nat} {name : String}

theorem findSome?_above {β : Type} {g : Declaration → Option β} {b : β} :
    ((doc.parts.take i).reverse.filterMap Part.declaration?).findSome? g = some b ↔
      ∃ j d, j < i ∧ doc.declarationAt? j = some d ∧ g d = some b ∧
        ∀ k d', j < k → k < i → doc.declarationAt? k = some d' → g d' = none := by
  simp only [findSome?_filterMap, findSome?_reverse_take_eq_some_iff, declarationAt?,
    Option.bind_eq_some_iff, Option.bind_eq_none_iff]
  grind

theorem findSome?_below {β : Type} {g : Declaration → Option β} {b : β} :
    ((doc.parts.drop (i + 1)).filterMap Part.declaration?).findSome? g = some b ↔
      ∃ j d, i < j ∧ doc.declarationAt? j = some d ∧ g d = some b ∧
        ∀ k d', i < k → k < j → doc.declarationAt? k = some d' → g d' = none := by
  simp only [findSome?_filterMap, findSome?_drop_eq_some_iff, declarationAt?,
    Option.bind_eq_some_iff, Option.bind_eq_none_iff]
  grind

theorem searchUp_eq_some_iff {id : Nat} :
    searchUp (doc.parts.take i).reverse name = some id ↔
      ∃ x, doc.MetAbove i name x ∧ x.id = some id := by
  simp only [searchUp, findSome?_above, Declaration.last?_eq_some_iff,
    Declaration.last?_eq_none_iff, MetAbove]
  grind

theorem searchDown_eq_some_iff {id : Nat} :
    searchDown (doc.parts.drop (i + 1)) name = some id ↔
      ∃ x, doc.MetBelow i name x ∧ x.id = some id := by
  simp only [searchDown, findSome?_below, Declaration.first?_eq_some_iff,
    Declaration.first?_eq_none_iff, MetBelow]
  grind

theorem mem_declarations_iff {d : Declaration} :
    d ∈ doc.declarations ↔ ∃ k, doc.declarationAt? k = some d :=
  mem_filterMap_iff_getElem?

theorem mem_above_iff {d : Declaration} :
    d ∈ (doc.parts.take i).reverse.filterMap Part.declaration? ↔
      ∃ k < i, doc.declarationAt? k = some d := by
  rw [List.filterMap_reverse, List.mem_reverse, mem_filterMap_iff_getElem?]
  apply exists_congr
  intro k
  rw [List.getElem?_take, declarationAt?]
  split <;> simp [*]

theorem mem_below_iff {d : Declaration} :
    d ∈ (doc.parts.drop (i + 1)).filterMap Part.declaration? ↔
      ∃ k > i, doc.declarationAt? k = some d := by
  simp only [mem_filterMap_iff_getElem?, List.getElem?_drop]
  constructor
  · rintro ⟨k, hk⟩
    exact ⟨i + 1 + k, by omega, hk⟩
  · rintro ⟨k, hik, hk⟩
    refine ⟨k - (i + 1), ?_⟩
    rwa [Nat.add_sub_of_le hik]

theorem searchUp_eq_none_iff_noneAbove :
    searchUp (doc.parts.take i).reverse name = none ↔ doc.NoneAbove i name := by
  simp only [searchUp_eq_none_iff, Declaration.occurrences_eq_nil_iff_resolved, mem_above_iff,
    NoneAbove]
  grind

theorem searchDown_eq_none_iff_noneBelow :
    searchDown (doc.parts.drop (i + 1)) name = none ↔ doc.NoneBelow i name := by
  simp only [searchDown_eq_none_iff, Declaration.occurrences_eq_nil_iff_resolved, mem_below_iff,
    NoneBelow]
  grind

theorem exists_leadsTo {direction : Direction} {id : Nat}
    (h : search direction (doc.parts.take i).reverse (doc.parts.drop (i + 1)) name = some id) :
    ∃ x, doc.LeadsTo i name direction x ∧ x.id = some id := by
  cases direction with
  | up =>
    rw [search_up, Option.or_eq_some_iff, searchUp_eq_some_iff, searchDown_eq_some_iff,
      searchUp_eq_none_iff_noneAbove] at h
    rcases h with ⟨x, hx, hid⟩ | ⟨hnone, x, hx, hid⟩
    · exact ⟨x, .above hx, hid⟩
    · exact ⟨x, .belowInstead hnone hx, hid⟩
  | down =>
    rw [search_down, Option.or_eq_some_iff, searchUp_eq_some_iff, searchDown_eq_some_iff,
      searchDown_eq_none_iff_noneBelow] at h
    rcases h with ⟨x, hx, hid⟩ | ⟨hnone, x, hx, hid⟩
    · exact ⟨x, .below hx, hid⟩
    · exact ⟨x, .aboveInstead hnone hx, hid⟩

theorem resolved_eq_nil_of_search {direction : Direction} (hpart : doc.declarationAt? i = none)
    (h : search direction (doc.parts.take i).reverse (doc.parts.drop (i + 1)) name = none) :
    ∀ d ∈ doc.declarations, d.resolved name = [] := by
  intro d hd
  rw [search_eq_none_iff] at h
  rw [← Declaration.occurrences_eq_nil_iff_resolved]
  apply h d
  rw [List.filterMap_append, List.mem_append, mem_above_iff, mem_below_iff]
  obtain ⟨k, hk⟩ := mem_declarations_iff.1 hd
  rcases Nat.lt_trichotomy k i with hlt | rfl | hgt
  · exact .inl ⟨k, hlt, hk⟩
  · rw [hpart] at hk
    cases hk
  · exact .inr ⟨k, hgt, hk⟩

theorem linksAt_resolvePart {part : Part} (h : doc.parts[i]? = some part) :
    doc.LinksAt i part
      (resolvePart (doc.parts.take i).reverse part (doc.parts.drop (i + 1))) := by
  cases part with
  | text s => exact .text s
  | declaration d span => exact .declaration d span
  | reference direction x =>
    cases hx : x.id with
    | some id =>
      have hsame : ({ x with id := some id } : Identifier) = x := by rw [← hx]
      rw [resolvePart, hx, Option.orElse_eq_orElse, Option.orElse_some, hsame]
      exact .kept (by rw [hx]; exact Option.some_ne_none id)
    | none =>
      rw [resolvePart_of_unresolved hx]
      cases hsearch : search direction (doc.parts.take i).reverse (doc.parts.drop (i + 1))
          x.name with
      | some id =>
        obtain ⟨y, hy, hid⟩ := exists_leadsTo hsearch
        rw [← hid]
        exact .found hx hy
      | none =>
        have hsame : ({ x with id := none } : Identifier) = x := by rw [← hx]
        rw [hsame]
        exact .dangling hx (resolved_eq_nil_of_search (by rw [declarationAt?, h]; rfl) hsearch)

theorem resolveReferences.length_go (above parts : List Part) :
    (go above parts).length = parts.length := by
  induction parts generalizing above with
  | nil => rfl
  | cons part below ih => rw [go, List.length_cons, List.length_cons, ih]

theorem resolveReferences.getElem?_go (above parts : List Part) (i : Nat) :
    (go above parts)[i]? = parts[i]?.map fun part =>
      resolvePart ((parts.take i).reverse ++ above) part (parts.drop (i + 1)) := by
  induction parts generalizing above i with
  | nil => rfl
  | cons part below ih =>
    rw [go]
    cases i with
    | zero => rfl
    | succ i =>
      rw [List.getElem?_cons_succ, ih, List.getElem?_cons_succ, List.take_succ_cons,
        List.reverse_cons, List.append_assoc, List.singleton_append, List.drop_succ_cons]

theorem getElem?_resolveReferences (doc : Document) (i : Nat) :
    doc.resolveReferences.parts[i]? = doc.parts[i]?.map fun part =>
      resolvePart (doc.parts.take i).reverse part (doc.parts.drop (i + 1)) := by
  rw [resolveReferences, resolveReferences.getElem?_go]
  simp only [List.append_nil]

theorem LeadsTo.exists_mem {direction : Direction} {x : Identifier}
    (h : doc.LeadsTo i name direction x) : ∃ d ∈ doc.declarations, x ∈ d.resolved name := by
  have hmet : doc.MetAbove i name x ∨ doc.MetBelow i name x := by
    cases h with
    | above h => exact .inl h
    | belowInstead _ h => exact .inr h
    | below h => exact .inr h
    | aboveInstead _ h => exact .inl h
  rcases hmet with ⟨j, d, -, hd, hx, -⟩ | ⟨j, d, -, hd, hx, -⟩
  · exact ⟨d, mem_declarations_iff.2 ⟨j, hd⟩, List.mem_of_getLast? hx⟩
  · exact ⟨d, mem_declarations_iff.2 ⟨j, hd⟩, List.mem_of_head? hx⟩

/-- An unresolved reference to a name of which no declaration has a resolved occurrence. -/
def Dangles (doc : Document) (r : Direction × Identifier) : Prop :=
  r.2.id = none ∧ ∀ d ∈ doc.declarations, d.resolved r.2.name = []

instance (doc : Document) : DecidablePred doc.Dangles := fun r =>
  inferInstanceAs (Decidable (r.2.id = none ∧ ∀ d ∈ doc.declarations, d.resolved r.2.name = []))

theorem LinksAt.reference?_eq {part part' : Part} (h : doc.LinksAt i part part') :
    part'.reference?.filter (fun r => r.2.id = none) = part.reference?.filter doc.Dangles := by
  cases h with
  | text s => rfl
  | declaration d span => rfl
  | kept hx =>
    simp only [Part.reference?, Option.filter_some, decide_eq_true_eq]
    rw [if_neg hx, if_neg fun h => hx h.1]
  | found hx h =>
    obtain ⟨d, hd, hy⟩ := h.exists_mem
    have hid := (Declaration.mem_resolved.1 hy).2.2
    simp only [Part.reference?, Option.filter_some, decide_eq_true_eq]
    rw [if_neg hid, if_neg fun h => List.ne_nil_of_mem hy (h.2 d hd)]
  | dangling hx h =>
    simp only [Part.reference?, Option.filter_some, decide_eq_true_eq]
    rw [if_pos hx, if_pos ⟨hx, h⟩]

theorem warnings_eq (doc : Document) : doc.warnings =
    (doc.references.filter fun r => r.2.id = none).map
      fun r => { direction := r.1, target := r.2 } := by
  rw [warnings, references, List.filter_filterMap, List.map_filterMap]
  apply List.filterMap_congr
  intro part _
  cases part with
  | text s => rfl
  | declaration d span => rfl
  | reference direction x => cases hx : x.id <;> simp [Part.reference?, hx]

theorem warnings_resolveReferences (doc : Document) :
    doc.resolveReferences.warnings =
      (doc.references.filter doc.Dangles).map fun r => { direction := r.1, target := r.2 } := by
  rw [warnings_eq, references, references, List.filter_filterMap, List.filter_filterMap]
  congr 1
  apply filterMap_eq_of_getElem?
  intro i
  rw [getElem?_resolveReferences, Option.map_map]
  cases h : doc.parts[i]? with
  | none => rfl
  | some part => exact congrArg some (linksAt_resolvePart h).reference?_eq

section

variable {above above' below below' : List Part}

theorem resolvePart_resolvePart
    (habove : above'.filterMap Part.declaration? = above.filterMap Part.declaration?)
    (hbelow : below'.filterMap Part.declaration? = below.filterMap Part.declaration?)
    (part : Part) :
    resolvePart above' (resolvePart above part below) below' = resolvePart above part below := by
  cases part with
  | text s => rfl
  | declaration d span => rfl
  | reference direction x =>
    have hsearch : search direction above' below' x.name = search direction above below x.name := by
      simp only [search, searchUp, searchDown, habove, hbelow]
    simp only [resolvePart, hsearch, Option.orElse_eq_orElse, Option.orElse_eq_or,
      Option.or_assoc, Option.or_self]

theorem resolveReferences.go_go
    (habove : above'.filterMap Part.declaration? = above.filterMap Part.declaration?)
    (parts : List Part) : go above' (go above parts) = go above parts := by
  induction parts generalizing above above' with
  | nil => rfl
  | cons part below ih =>
    have hpart : (resolvePart above part below).declaration? = part.declaration? := by
      cases part <;> rfl
    have hnext : (resolvePart above part below :: above').filterMap Part.declaration? =
        (part :: above).filterMap Part.declaration? := by
      rw [List.filterMap_cons, List.filterMap_cons, hpart, habove]
    rw [go, go, ih hnext, resolvePart_resolvePart habove (declarations_go (part :: above) below)]

end

/--
Every reference leads to the nearest occurrence of its name, and those that lead nowhere are the
warnings. To resolve the references once more changes nothing.
-/
theorem linksAt_resolveReferences (doc : Document) :
    doc.resolveReferences.parts.length = doc.parts.length ∧
      (∀ i part, doc.parts[i]? = some part →
        ∃ part', doc.resolveReferences.parts[i]? = some part' ∧ doc.LinksAt i part part') ∧
      doc.resolveReferences.warnings =
        (doc.references.filter doc.Dangles).map (fun r => { direction := r.1, target := r.2 }) ∧
      doc.resolveReferences.resolveReferences = doc.resolveReferences ∧
      doc.resolveReferences.resolveReferences.warnings = doc.resolveReferences.warnings := by
  have hagain : doc.resolveReferences.resolveReferences = doc.resolveReferences :=
    congrArg Document.mk (resolveReferences.go_go rfl doc.parts)
  refine ⟨?_, ?_, warnings_resolveReferences doc, hagain, by rw [hagain]⟩
  · exact resolveReferences.length_go [] doc.parts
  · intro i part hpart
    refine ⟨_, ?_, linksAt_resolvePart hpart⟩
    rw [getElem?_resolveReferences, hpart, Option.map_some]

def mentioning (id₁ id₂ : Nat) : Part :=
  .declaration (.function { name := "f", id := some 1 } [{ name := "a", id := some id₁ }]
    [.return (.identifier { name := "a", id := some id₂ })]) {}

def surrounded : Document where
  parts := [.reference .up { name := "a" }, mentioning 2 3, .reference .up { name := "a" },
    .reference .down { name := "a" }, mentioning 4 5, .reference .down { name := "a" },
    .reference .up { name := "z" }]

theorem linksAt_surrounded :
    (∃ part, surrounded.resolveReferences.parts[2]? = some part ∧
      surrounded.LinksAt 2 (.reference .up { name := "a" }) part) ∧
    surrounded.resolveReferences.warnings = [{ direction := .up, target := { name := "z" } }] ∧
    surrounded.resolveReferences.references.map (·.2.id) =
      [some 2, some 3, some 4, some 5, none] := by
  obtain ⟨-, hparts, -⟩ := linksAt_resolveReferences surrounded
  exact ⟨hparts 2 _ rfl, by decide, by decide⟩

end Document

end LiterateFun
