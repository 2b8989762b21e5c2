import LiterateFun.Proofs.Basics
import LiterateFun.Proofs.Parsing.OwnText
import LiterateFun.Proofs.Relabel
import LiterateFun.Proofs.Spacing.Tiling

/-!
This module contains the order of the identifiers of a declaration. It is their order in the source,
so the first and the last occurrence of a name are the ones that a reader meets there.
-/

namespace LiterateFun

namespace Declaration

def resolved (d : Declaration) (name : String) : List Identifier :=
  d.identifiers.filter fun x => x.name = name ∧ x.id ≠ none

section

variable {d : Declaration} {name : String}

theorem mem_resolved {x : Identifier} :
    x ∈ d.resolved name ↔ x ∈ d.identifiers ∧ x.name = name ∧ x.id ≠ none := by
  rw [resolved, List.mem_filter, decide_eq_true_eq]

theorem resolved_eq_nil_iff :
    d.resolved name = [] ↔ ∀ x ∈ d.identifiers, x.name = name → x.id = none := by
  simp only [resolved, List.filter_eq_nil_iff, decide_eq_true_eq, not_and, not_not]

theorem map_id_resolved (d : Declaration) (name : String) :
    (d.resolved name).map (·.id) = (d.occurrences name).map some := by
  rw [resolved, occurrences]
  induction d.identifiers with
  | nil => rfl
  | cons x xs ih =>
    by_cases hname : x.name = name
    · cases hid : x.id <;> simp_all
    · simp_all

theorem first?_eq_some_iff {id : Nat} :
    d.first? name = some id ↔ ∃ x, (d.resolved name).head? = some x ∧ x.id = some id := by
  have h := congrArg List.head? (map_id_resolved d name)
  rw [List.head?_map, List.head?_map] at h
  rw [← Option.map_eq_some_iff, h, first?]
  simp

theorem last?_eq_some_iff {id : Nat} :
    d.last? name = some id ↔ ∃ x, (d.resolved name).getLast? = some x ∧ x.id = some id := by
  have h := congrArg List.getLast? (map_id_resolved d name)
  rw [List.getLast?_map, List.getLast?_map] at h
  rw [← Option.map_eq_some_iff, h, last?]
  simp

theorem occurrences_eq_nil_iff_resolved : d.occurrences name = [] ↔ d.resolved name = [] := by
  rw [← List.map_eq_nil_iff (f := some), ← map_id_resolved, List.map_eq_nil_iff]

theorem first?_eq_none_iff : d.first? name = none ↔ d.resolved name = [] := by
  rw [first?, List.head?_eq_none_iff, occurrences_eq_nil_iff_resolved]

theorem last?_eq_none_iff : d.last? name = none ↔ d.resolved name = [] := by
  rw [last?, List.getLast?_eq_none_iff, occurrences_eq_nil_iff_resolved]

end

end Declaration

namespace Declaration

/--
The identifiers of a declaration stand in its text in the order in which they are searched, and no
name in the text is left out.
-/
structure IsInOrder (d : Declaration) (span : Span) (source : String) : Prop where
  ordered : d.identifiers.Pairwise fun x y =>
    x.span.start < y.span.start ∧ x.span.stop ≤ y.span.start
  within : ∀ x ∈ d.identifiers,
    span.start ≤ x.span.start ∧ x.span.start < x.span.stop ∧ x.span.stop ≤ span.stop
  spelled : ∀ x ∈ d.identifiers, x.span.text? source = some x.name
  unresolved : ∀ x ∈ d.identifiers, x.id = none
  complete : d.HasAllNames span source

structure FindsOutermost (d : Declaration) (name : String) : Prop where
  first : ∀ id, d.first? name = some id ↔
    ∃ x ∈ d.resolved name, (∀ y ∈ d.resolved name, x.span.start ≤ y.span.start) ∧ x.id = some id
  last : ∀ id, d.last? name = some id ↔
    ∃ x ∈ d.resolved name, (∀ y ∈ d.resolved name, y.span.start ≤ x.span.start) ∧ x.id = some id
  first_none : d.first? name = none ↔ ∀ x ∈ d.identifiers, x.name = name → x.id = none
  last_none : d.last? name = none ↔ ∀ x ∈ d.identifiers, x.name = name → x.id = none

theorem findsOutermost_of_pairwise {d : Declaration}
    (h : d.identifiers.Pairwise fun x y => x.span.start < y.span.start) (name : String) :
    d.FindsOutermost name := by
  have hresolved : (d.resolved name).Pairwise fun x y => x.span.start < y.span.start := h.filter _
  constructor
  · intro id
    simp only [first?_eq_some_iff,
      head?_eq_some_iff_of_pairwise (fun _ _ => Nat.lt_asymm) hresolved, Nat.not_lt,
      and_assoc]
  · intro id
    rw [← List.pairwise_reverse] at hresolved
    simp only [last?_eq_some_iff, ← List.head?_reverse,
      head?_eq_some_iff_of_pairwise (fun _ _ => Nat.lt_asymm) hresolved, Nat.not_lt,
      List.mem_reverse, and_assoc]
  · rw [first?_eq_none_iff, resolved_eq_nil_iff]
  · rw [last?_eq_none_iff, resolved_eq_nil_iff]

end Declaration

theorem Token.Denotes.span_eq {t : Token} {x : Identifier} (h : t.Denotes x) : x.span = t.span := by
  rw [h.2]

theorem DenotedInOrder.pairwise {ts : List Token} {xs : List Identifier} {R : Span → Span → Prop}
    (h : DenotedInOrder ts xs) (hts : ts.Pairwise fun t u => R t.span u.span) :
    xs.Pairwise fun x y => R x.span y.span := by
  obtain ⟨us, hus, hxs⟩ := h.tokens
  clear h
  have hspans : us.map Token.span = xs.map Identifier.span := by
    induction hxs with
    | nil => rfl
    | cons hdenotes _ ih =>
      rw [List.map_cons, List.map_cons, hdenotes.span_eq, ih (List.sublist_of_cons_sublist hus)]
  rw [← List.pairwise_map, ← hspans, List.pairwise_map]
  exact hts.sublist hus

open Grammar

namespace Declaration

theorem isInOrder_of_parse {source : String} {before rest : List Char} {d : Declaration}
    {span : Span} (hsource : before ++ rest = source.toList)
    (h : Declaration.parse (Token.scan (Position.first.after before) rest) = .ok (d, span)) :
    d.IsInOrder span source := by
  have htile := Token.tile_scan hsource
  have hcomplete := hasAllNames_of_parse hsource h
  obtain ⟨t, ts, t', rest', hscan, ht, -, hdeclaration, rfl⟩ := exists_of_parse h
  have hsublist : (t :: (ts ++ [t'])).Sublist (Token.scan (Position.first.after before) rest) := by
    rw [hscan, List.append_cons ts t' rest']
    exact (List.sublist_append_left _ rest').cons_cons t
  -- every identifier is some token between the backslash and the closing brace
  have htoken : ∀ x ∈ d.identifiers, ∃ u ∈ ts ++ [t'],
      u ∈ Token.scan (Position.first.after before) rest ∧ u.Denotes x := by
    intro x hx
    obtain ⟨u, hu, hdenotes⟩ := hdeclaration.denoted ht x hx
    exact ⟨u, hu, hsublist.subset (List.mem_cons_of_mem t hu), hdenotes⟩
  have hwithin : ∀ x ∈ d.identifiers, t.span.start ≤ x.span.start ∧
      x.span.start < x.span.stop ∧ x.span.stop ≤ t'.span.stop := by
    intro x hx
    obtain ⟨u, hu, hmem, hdenotes⟩ := htoken x hx
    rw [hdenotes.span_eq]
    refine ⟨?_, htile.start_lt_stop hmem (by rw [hdenotes.1]; nofun), ?_⟩
    · rw [hscan, List.append_cons] at htile
      exact htile.start_le_of_mem_cons (List.mem_append_left _ hu)
    · rw [hscan, ← List.cons_append] at htile
      exact htile.stop_le_of_mem_concat (List.mem_cons_of_mem _ hu)
  constructor
  · have hordered : d.identifiers.Pairwise fun x y => x.span.stop ≤ y.span.start :=
      (hdeclaration.inOrder ht).pairwise (R := fun s s' => s.stop ≤ s'.start)
        (htile.ordered.sublist hsublist)
    apply hordered.imp_of_mem
    intro x y hx _ hle
    exact ⟨Nat.lt_of_lt_of_le (hwithin x hx).2.1 hle, hle⟩
  · exact hwithin
  · intro x hx
    obtain ⟨u, -, hmem, hdenotes⟩ := htoken x hx
    have hlexeme : u.lexeme.toList = x.name.toList :=
      Token.lexeme_of_mem_scan hmem (by rw [hdenotes.1]; rfl)
    rw [hdenotes.span_eq, (htile.lexemes u hmem).1, String.toList_inj.1 hlexeme]
  · intro x hx
    obtain ⟨u, -, -, -, hx⟩ := htoken x hx
    rw [hx]
  · exact hcomplete

/--
The identifiers of a parsed declaration stand in its text in their order. Whatever bindings they get
then, the search for a name finds the outermost occurrences.
-/
theorem isInOrder_of_ofSource {source : String} {offset : Nat} {d : Declaration} {span : Span}
    (h : Declaration.ofSource? source offset = some (.ok (d, span))) :
    d.IsInOrder span source ∧
      ∀ d' : Declaration, d'.relabel Identifier.forgetId = d → ∀ name, d'.FindsOutermost name := by
  obtain ⟨before, rest, hsource, -, hparse⟩ := Declaration.ofSource?_eq_some_iff.1 h
  have hd := isInOrder_of_parse hsource hparse
  refine ⟨hd, ?_⟩
  rintro d' rfl name
  have hordered := hd.ordered
  rw [identifiers_relabel, List.pairwise_map] at hordered
  exact findsOutermost_of_pairwise (hordered.imp And.left) name

def repeatedSource : String :=
  "é \\fun\x7bf\x7d\x7ba\x7d\x7ba = f(a);\x7d"

/-- The declaration of the source, where the occurrences of `a` may belong to bindings. -/
def repeated (id₁ id₂ id₃ : Option Nat) : Declaration :=
  .function { name := "f", span := ⟨8, 9⟩ } [{ name := "a", id := id₁, span := ⟨11, 12⟩ }]
    [.expression (.assign (.identifier { name := "a", id := id₂, span := ⟨14, 15⟩ })
      (.call (.identifier { name := "f", span := ⟨18, 19⟩ })
        [.identifier { name := "a", id := id₃, span := ⟨20, 21⟩ }]))]

theorem isInOrder_repeated :
    Declaration.ofSource? repeatedSource 2 = some (.ok (repeated none none none, ⟨3, 24⟩)) ∧
      (repeated none none none).IsInOrder ⟨3, 24⟩ repeatedSource ∧
      (repeated (some 4) (some 5) none).FindsOutermost "a" ∧
      (repeated (some 4) (some 5) none).first? "a" = some 4 ∧
      (repeated (some 4) (some 5) none).last? "a" = some 5 ∧
      (repeated (some 4) (some 5) none).last? "f" = none := by
  have h : Declaration.ofSource? repeatedSource 2 =
      some (.ok (repeated none none none, ⟨3, 24⟩)) := by
    cbv
  have hd := isInOrder_of_ofSource h
  exact ⟨h, hd.1, hd.2 (repeated (some 4) (some 5) none) rfl "a", rfl, rfl, rfl⟩

end Declaration

end LiterateFun
