import LiterateFun.Proofs.Documents.Reading
import Mathlib

-- The whole library: `cbv` unfolds library functions by the equations that stand in it.

/-!
This module contains the division of a source into the parts of a document. The parts are the whole
source, and those that are not text start exactly at the markers that stand outside of braces and of
declarations.
-/

namespace LiterateFun

namespace Part

def sourceText? (source : String) : Part → Option String
  | .text s => some s
  | .declaration _ span => span.text? source
  | .reference _ target => target.span.text? source

def isText : Part → Bool
  | .text _ => true
  | _ => false

def marker? : Part → Option (Char × Nat)
  | .text _ => none
  | .declaration _ span => some ('\\', span.start)
  | .reference direction target => some (direction.marker, target.span.start)

def declarationSpan? : Part → Option Span
  | .declaration _ span => some span
  | _ => none

end Part

theorem Direction.marker_ne_backslash (direction : Direction) : direction.marker ≠ '\\' := by
  cases direction <;> decide

def Span.contains (span : Span) (offset : Nat) : Bool :=
  span.start ≤ offset ∧ offset < span.stop

namespace Document

/-- How many braces are open after a character. A closing brace alone is a character like others. -/
def depthAfter (depth : Nat) (c : Char) : Nat :=
  if c = '{' then depth + 1
  else if c = '}' then depth - 1
  else depth

/-- How many braces are open at the end of a text. Those in the spans do not count. -/
def openBraces (spans : List Span) (text : List Char) : Nat :=
  go 0 0 text
where
  go (offset depth : Nat) : List Char → Nat
    | [] => depth
    | c :: text =>
      let depth := if spans.any (·.contains offset) then depth else depthAfter depth c
      go (offset + c.utf8Size) depth text

def trailingBackslashes (text : List Char) : Nat :=
  (text.reverse.takeWhile (· = '\\')).length

/--
A character of a source starts a part that is not text: it is neither in one of the spans, which are
those of declarations, nor in braces. It is a marker in front of a word, or a backslash in front of
a declaration that is not the second one of a pair.
-/
structure IsActive (spans : List Span) (before : List Char) (c : Char) (after : List Char) :
    Prop where
  outside : ∀ span ∈ spans, ¬(span.start < Text.byteSize before ∧ Text.byteSize before < span.stop)
  unbraced : openBraces spans before = 0
  marks :
    (∃ direction : Direction, c = direction.marker) ∧ (∃ d ∈ after.head?, Token.isWordRest d) ∨
      c = '\\' ∧ trailingBackslashes before % 2 = 0 ∧ startsDeclaration after

structure Divides (doc : Document) (source : String) : Prop where
  /-- The texts of the parts are the source. -/
  joined : ∃ texts, doc.parts.map (Part.sourceText? source) = texts.map some ∧
    String.join texts = source
  text_ne_empty : ∀ s, Part.text s ∈ doc.parts → s ≠ ""
  /-- There is another part between any two texts. -/
  texts_apart : doc.parts.IsChain fun part next => ¬(part.isText ∧ next.isText)
  /-- A reference is its marker and all of the word after it. -/
  reference_text : ∀ direction target, Part.reference direction target ∈ doc.parts →
    ∃ before after, before ++ direction.marker :: after = source.toList ∧
      target.span.start = Text.byteSize before ∧
      target.span.text? source = some (String.singleton direction.marker ++ target.name) ∧
      target.name ≠ "" ∧ target.name.toList = after.takeWhile Token.isWordRest
  markers_increase : (doc.parts.filterMap Part.marker?).Pairwise fun m m' => m.2 < m'.2
  mem_markers_iff : ∀ c offset, (c, offset) ∈ doc.parts.filterMap Part.marker? ↔
    ∃ before after, before ++ c :: after = source.toList ∧ offset = Text.byteSize before ∧
      IsActive (doc.parts.filterMap Part.declarationSpan?) before c after

section

variable {source : String} {before taken text rest : List Char} {part : Part} {r : Remainder}

theorem IsPart.sourceText? (h : IsPart before taken rest part)
    (hsource : before ++ (taken ++ rest) = source.toList) :
    part.sourceText? source = some (String.ofList taken) := by
  have htext : Span.text? source ⟨Text.byteSize before, Text.byteSize (before ++ taken)⟩ =
      some (String.ofList taken) := by
    refine Span.text?_eq_some_iff.2 ⟨before, rest, ?_, ?_⟩
    · rw [String.toList_ofList]
      exact hsource
    · rw [String.toList_ofList]
  cases h with
  | declaration _ _ hspan =>
    rw [Part.sourceText?, hspan]
    exact htext
  | reference _ _ _ hspan =>
    rw [Part.sourceText?, hspan]
    exact htext

def Remainder.Covers (source : String) (r : Remainder) (text : List Char) : Prop :=
  ∃ texts, r.parts.map (Part.sourceText? source) = texts.map some ∧
    r.text ++ (String.join texts).toList = text

theorem Remainder.Covers.toParts (h : r.Covers source text) :
    ∃ texts, r.toParts.map (Part.sourceText? source) = texts.map some ∧
      (String.join texts).toList = text := by
  obtain ⟨texts, htexts, rfl⟩ := h
  unfold Remainder.toParts
  split
  next hnil => exact ⟨texts, htexts, by rw [hnil, List.nil_append]⟩
  next =>
    refine ⟨String.ofList r.text :: texts, ?_, ?_⟩
    · rw [List.map_cons, List.map_cons, htexts]
      rfl
    · simp

theorem ReadsAs.covers (h : ReadsAs before text r) (hsource : before ++ text = source.toList) :
    r.Covers source text := by
  induction h with
  | nil => exact ⟨[], rfl, rfl⟩
  | text hchunk h ih =>
    rw [← List.append_assoc] at hsource
    obtain ⟨texts, htexts, rfl⟩ := ih hsource
    exact ⟨texts, htexts, List.append_assoc _ _ _⟩
  | @part before taken rest part r hpart h ih =>
    have hpiece := hpart.sourceText? hsource
    rw [← List.append_assoc] at hsource
    obtain ⟨texts, htexts, hjoin⟩ := (ih hsource).toParts
    refine ⟨String.ofList taken :: texts, ?_, ?_⟩
    · rw [Remainder.afterPart, List.map_cons, List.map_cons, htexts, hpiece]
    · rw [← hjoin]
      simp [Remainder.afterPart]

theorem IsPart.not_isText (h : IsPart before taken rest part) : ¬part.isText := by
  cases h <;> nofun

/-- No text is empty or next to another one, and the first part is not text. -/
structure Remainder.Apart (r : Remainder) : Prop where
  text_ne_empty : ∀ s, Part.text s ∈ r.parts → s ≠ ""
  isChain : r.parts.IsChain fun part next => ¬(part.isText ∧ next.isText)
  head : ∀ part ∈ r.parts.head?, ¬part.isText

theorem Remainder.Apart.text_ne_empty_toParts (h : r.Apart) (s : String)
    (hs : Part.text s ∈ r.toParts) : s ≠ "" := by
  rcases Remainder.mem_toParts hs with hs | ⟨hne, hs⟩
  · exact h.text_ne_empty s hs
  · cases hs
    exact fun hempty => hne (by simpa using hempty)

theorem Remainder.Apart.isChain_toParts (h : r.Apart) :
    r.toParts.IsChain fun part next => ¬(part.isText ∧ next.isText) := by
  unfold Remainder.toParts
  split
  · exact h.isChain
  · refine List.isChain_cons.2 ⟨?_, h.isChain⟩
    exact fun part hpart htexts => h.head part hpart htexts.2

theorem ReadsAs.apart (h : ReadsAs before text r) : r.Apart := by
  induction h with
  | nil => exact ⟨nofun, .nil, nofun⟩
  | text hchunk h ih => exact ⟨ih.text_ne_empty, ih.isChain, ih.head⟩
  | @part before taken rest part r hpart h ih =>
    refine ⟨?_, ?_, ?_⟩
    · intro s hs
      rcases List.mem_cons.1 hs with rfl | hs
      · exact absurd rfl hpart.not_isText
      · exact ih.text_ne_empty_toParts s hs
    · refine List.isChain_cons.2 ⟨?_, ih.isChain_toParts⟩
      exact fun next _ htexts => hpart.not_isText htexts.1
    · rintro _ ⟨⟩
      exact hpart.not_isText

theorem ReadsAs.exists_of_reference (h : ReadsAs before text r)
    (hsource : before ++ text = source.toList) {direction : Direction} {target : Identifier}
    (hmem : Part.reference direction target ∈ r.parts) :
    ∃ before after, before ++ direction.marker :: after = source.toList ∧
      target.span.start = Text.byteSize before ∧
      target.span.text? source = some (String.singleton direction.marker ++ target.name) ∧
      target.name ≠ "" ∧ target.name.toList = after.takeWhile Token.isWordRest := by
  induction h with
  | nil => cases hmem
  | text hchunk h ih =>
    rw [← List.append_assoc] at hsource
    exact ih hsource hmem
  | @part before taken rest part r hpart h ih =>
    rcases List.mem_cons.1 hmem with rfl | hmem
    · have hpiece := hpart.sourceText? hsource
      cases hpart with
      | @reference name _ _ _ hname hword hrest hspan =>
        refine ⟨before, name ++ rest, hsource, ?_, ?_, ?_, ?_⟩
        · rw [hspan]
        · rw [Part.sourceText?] at hpiece
          rw [hpiece]
          simp
        · simpa using hname
        · rw [List.takeWhile_append_of_pos hword, takeWhile_eq_nil_of_head? hrest, List.append_nil,
            String.toList_ofList]
    · rw [← List.append_assoc] at hsource
      refine ih hsource ?_
      rcases Remainder.mem_toParts hmem with hmem | ⟨-, hmem⟩
      · exact hmem
      · cases hmem

theorem IsPart.exists_marker (h : IsPart before taken rest part) :
    ∃ c tail, taken = c :: tail ∧ part.marker? = some (c, Text.byteSize before) := by
  cases h with
  | @declaration inner _ _ _ _ _ hspan =>
    refine ⟨'\\', inner, rfl, ?_⟩
    rw [Part.marker?, hspan]
  | @reference name _ direction _ _ _ _ hspan =>
    refine ⟨direction.marker, name, rfl, ?_⟩
    rw [Part.marker?, hspan]

theorem ReadsAs.markers_increase (h : ReadsAs before text r) :
    (∀ m ∈ r.parts.filterMap Part.marker?, Text.byteSize before ≤ m.2) ∧
      (r.parts.filterMap Part.marker?).Pairwise fun m m' => m.2 < m'.2 := by
  induction h with
  | nil => exact ⟨nofun, .nil⟩
  | text hchunk h ih =>
    refine ⟨fun m hm => ?_, ih.2⟩
    have hle := ih.1 m hm
    rw [Text.byteSize_append] at hle
    omega
  | @part before taken rest part r hpart h ih =>
    obtain ⟨c, tail, -, hmarker⟩ := hpart.exists_marker
    have hpos := Text.byteSize_pos hpart.length_pos
    have hlt (m : Char × Nat) (hm : m ∈ r.parts.filterMap Part.marker?) :
        Text.byteSize before < m.2 := by
      have hle := ih.1 m hm
      rw [Text.byteSize_append] at hle
      omega
    rw [Remainder.filterMap_afterPart fun _ => rfl, hmarker]
    refine ⟨?_, List.pairwise_cons.2 ⟨hlt, ih.2⟩⟩
    intro m hm
    rcases List.mem_cons.1 hm with rfl | hm
    · exact Nat.le_refl _
    · exact Nat.le_of_lt (hlt m hm)

theorem ReadsAs.le_start (h : ReadsAs before text r) {span : Span}
    (hspan : span ∈ r.parts.filterMap Part.declarationSpan?) :
    Text.byteSize before ≤ span.start := by
  obtain ⟨part, hpart, heq⟩ := List.mem_filterMap.1 hspan
  cases part with
  | declaration d span' =>
    cases heq
    exact h.markers_increase.1 ('\\', span.start) (List.mem_filterMap.2 ⟨_, hpart, rfl⟩)
  | _ => cases heq

end

section

variable {spans : List Span} {before text : List Char}

theorem openBraces.go_append (offset depth : Nat) (before after : List Char) :
    openBraces.go spans offset depth (before ++ after) =
      openBraces.go spans (offset + Text.byteSize before) (openBraces.go spans offset depth before)
        after := by
  induction before generalizing offset depth with
  | nil => rfl
  | cons c before ih =>
    rw [List.cons_append, openBraces.go, openBraces.go, ih, Text.byteSize_cons, Nat.add_assoc]

theorem openBraces_append (before after : List Char) :
    openBraces spans (before ++ after) =
      openBraces.go spans (Text.byteSize before) (openBraces spans before) after := by
  rw [openBraces, openBraces.go_append, Nat.zero_add]
  rfl

theorem openBraces_append_of_apart
    (h : ∀ span ∈ spans, Text.byteSize before < span.stop →
      Text.byteSize (before ++ text) ≤ span.start) :
    openBraces spans (before ++ text) = text.foldl depthAfter (openBraces spans before) := by
  induction text generalizing before with
  | nil => rw [List.append_nil, List.foldl_nil]
  | cons c text ih =>
    have hpos := c.utf8Size_pos
    have houtside : spans.any (·.contains (Text.byteSize before)) = false := by
      rw [List.any_eq_false]
      intro span hspan hcontains
      have := h span hspan
      simp only [Span.contains, decide_eq_true_eq, Text.byteSize_append, Text.byteSize_cons] at *
      omega
    have hone : openBraces spans (before ++ [c]) = depthAfter (openBraces spans before) c := by
      rw [openBraces_append, openBraces.go, openBraces.go, houtside]
      rfl
    rw [List.append_cons, ih, hone]
    · rfl
    · intro span hspan hlt
      rw [← List.append_cons]
      refine h span hspan ?_
      rw [Text.byteSize_append] at hlt
      omega

theorem openBraces_append_of_mem {span : Span} (hspan : span ∈ spans)
    (hstart : span.start ≤ Text.byteSize before)
    (hstop : Text.byteSize (before ++ text) ≤ span.stop) :
    openBraces spans (before ++ text) = openBraces spans before := by
  induction text generalizing before with
  | nil => rw [List.append_nil]
  | cons c text ih =>
    have hpos := c.utf8Size_pos
    simp only [Text.byteSize_append, Text.byteSize_cons] at hstop
    have hinside : spans.any (·.contains (Text.byteSize before)) = true := by
      rw [List.any_eq_true]
      refine ⟨span, hspan, ?_⟩
      simp only [Span.contains, decide_eq_true_eq]
      omega
    have hone : openBraces spans (before ++ [c]) = openBraces spans before := by
      rw [openBraces_append, openBraces.go, openBraces.go, hinside]
      rfl
    rw [List.append_cons, ih, hone]
    · simp
      omega
    · simp
      omega

theorem trailingBackslashes_concat (text : List Char) (c : Char) :
    trailingBackslashes (text ++ [c]) = if c = '\\' then trailingBackslashes text + 1 else 0 := by
  unfold trailingBackslashes
  rw [List.reverse_append, List.reverse_singleton, List.singleton_append, List.takeWhile_cons]
  by_cases hc : c = '\\' <;> simp [hc]

theorem trailingBackslashes_of_getLast? {c : Char} (h : text.getLast? = some c) (hc : c ≠ '\\')
    (before : List Char) : trailingBackslashes (before ++ text) = 0 := by
  obtain ⟨init, rfl⟩ := List.getLast?_eq_some_iff.1 h
  rw [← List.append_assoc, trailingBackslashes_concat, if_neg hc]

/--
In the text after an opening brace there is always a brace open, and at the end of it none, unless
nothing comes after it. There, `depth` more braces are open.
-/
structure Encloses (depth : Nat) (group rest : List Char) : Prop where
  inside : ∀ mid c after, mid ++ c :: after = group → 0 < mid.foldl depthAfter (depth + 1)
  closed : group.foldl depthAfter (depth + 1) = 0 ∧ group.getLast? = some '}' ∨ rest = []

theorem Encloses.cons {depth depth' : Nat} {c : Char} {group rest : List Char}
    (h : Encloses depth' group rest) (hc : depthAfter (depth + 1) c = depth' + 1) :
    Encloses depth (c :: group) rest := by
  constructor
  · intro mid d after hmid
    cases mid with
    | nil => exact Nat.zero_lt_succ _
    | cons e mid =>
      cases hmid
      rw [List.foldl_cons, hc]
      exact h.inside mid d after rfl
  · refine h.closed.imp_left fun ⟨hdepth, hlast⟩ => ⟨?_, ?_⟩
    · rw [List.foldl_cons, hc]
      exact hdepth
    · rw [List.getLast?_cons, hlast]
      rfl

theorem encloses_splitGroup (depth : Nat) (text : List Char) :
    Encloses depth (splitGroup depth text).1 (splitGroup depth text).2 := by
  fun_induction splitGroup depth text with
  | case1 depth =>
    refine ⟨?_, .inr rfl⟩
    intro mid c after hmid
    cases List.append_ne_nil_of_right_ne_nil _ (List.cons_ne_nil c after) hmid
  | case2 text =>
    refine ⟨?_, .inl ⟨rfl, rfl⟩⟩
    intro mid c after hmid
    cases mid with
    | nil => exact Nat.zero_lt_one
    | cons d mid => simp at hmid
  | case3 text depth group rest hgroup ih =>
    rw [hgroup] at ih
    exact ih.cons rfl
  | case4 depth c text hclose group rest hgroup ih =>
    rw [hgroup] at ih
    refine ih.cons ?_
    unfold depthAfter
    split <;> simp_all

theorem encloses_of_splitGroup {depth : Nat} {group rest : List Char}
    (h : splitGroup depth (group ++ rest) = (group, rest)) : Encloses depth group rest := by
  have hencloses := encloses_splitGroup depth (group ++ rest)
  rw [h] at hencloses
  exact hencloses

def ActiveIn (spans : List Span) (before text : List Char) (c : Char) (offset : Nat) : Prop :=
  ∃ mid after, mid ++ c :: after = text ∧ offset = Text.byteSize (before ++ mid) ∧
    IsActive spans (before ++ mid) c after

theorem activeIn_cons {a c : Char} {offset : Nat} :
    ActiveIn spans before (a :: text) c offset ↔
      (c = a ∧ offset = Text.byteSize before ∧ IsActive spans before a text) ∨
        ActiveIn spans (before ++ [a]) text c offset := by
  constructor
  · rintro ⟨mid, after, hmid, hoffset, hactive⟩
    cases mid with
    | nil =>
      cases hmid
      rw [List.append_nil] at hoffset hactive
      exact .inl ⟨rfl, hoffset, hactive⟩
    | cons b mid =>
      cases hmid
      rw [List.append_cons] at hoffset hactive
      exact .inr ⟨mid, after, rfl, hoffset, hactive⟩
  · rintro (⟨rfl, hoffset, hactive⟩ | ⟨mid, after, rfl, hoffset, hactive⟩)
    · refine ⟨[], text, rfl, ?_, ?_⟩
      · rw [List.append_nil]
        exact hoffset
      · rw [List.append_nil]
        exact hactive
    · rw [← List.append_cons] at hoffset hactive
      exact ⟨a :: mid, after, rfl, hoffset, hactive⟩

def Quiet (spans : List Span) (before chunk rest : List Char) : Prop :=
  ∀ mid a after, mid ++ a :: after = chunk → ¬IsActive spans (before ++ mid) a (after ++ rest)

theorem quiet_nil {rest : List Char} : Quiet spans before [] rest := by
  intro mid a after hmid
  cases List.append_ne_nil_of_right_ne_nil _ (List.cons_ne_nil a after) hmid

theorem Quiet.cons {a : Char} {chunk rest : List Char}
    (h : Quiet spans (before ++ [a]) chunk rest)
    (ha : ¬IsActive spans before a (chunk ++ rest)) : Quiet spans before (a :: chunk) rest := by
  intro mid b after hmid
  cases mid with
  | nil =>
    cases hmid
    rw [List.append_nil]
    exact ha
  | cons c mid =>
    cases hmid
    rw [List.append_cons]
    exact h mid b after rfl

theorem Quiet.activeIn_iff {chunk rest : List Char} (h : Quiet spans before chunk rest) {c : Char}
    {offset : Nat} :
    ActiveIn spans before (chunk ++ rest) c offset ↔
      ActiveIn spans (before ++ chunk) rest c offset := by
  induction chunk generalizing before with
  | nil => rw [List.nil_append, List.append_nil]
  | cons a chunk ih =>
    have hfirst : ¬IsActive spans before a (chunk ++ rest) := by
      have := h [] a chunk rfl
      rwa [List.append_nil] at this
    have hquiet : Quiet spans (before ++ [a]) chunk rest := by
      intro mid b after hmid
      have := h (a :: mid) b after (by rw [← hmid]; rfl)
      rwa [List.append_cons] at this
    rw [List.cons_append, activeIn_cons, ih hquiet, ← List.append_cons]
    exact or_iff_right fun h => hfirst h.2.2

theorem IsActive.eq_marker {c : Char} {after : List Char} (h : IsActive spans before c after) :
    (∃ direction : Direction, c = direction.marker) ∨ c = '\\' :=
  h.marks.imp And.left And.left

theorem IsActive.not_isWordRest {c : Char} {after : List Char}
    (h : IsActive spans before c after) : ¬Token.isWordRest c := by
  obtain ⟨direction, rfl⟩ | rfl := h.eq_marker
  · cases direction <;> decide
  · decide

theorem IsActive.of_backslash {after : List Char} (h : IsActive spans before '\\' after) :
    trailingBackslashes before % 2 = 0 ∧ startsDeclaration after := by
  obtain ⟨⟨direction, hmarker⟩, -⟩ | ⟨-, h⟩ := h.marks
  · exact absurd hmarker.symm direction.marker_ne_backslash
  · exact h

/--
At the place where the reader is, no brace is open, backslashes come in pairs, and the spans that
are not behind it are those of the declarations that it will find.
-/
structure Aligned (spans : List Span) (before text : List Char) (r : Remainder) : Prop where
  unbraced : openBraces spans before = 0 ∨ text = []
  paired : trailingBackslashes before % 2 = 0 ∨ text.head? ≠ some '\\'
  mem_spans_iff : ∀ span, Text.byteSize before < span.stop →
    (span ∈ spans ↔ span ∈ r.parts.filterMap Part.declarationSpan?)

section

variable {chunk rest : List Char} {r r' : Remainder}

theorem Aligned.unbraced_of_ne_nil (h : Aligned spans before text r) (hne : text ≠ []) :
    openBraces spans before = 0 :=
  h.unbraced.resolve_right hne

theorem Aligned.le_start (h : Aligned spans before text r')
    (hspans : r'.parts.filterMap Part.declarationSpan? = r.parts.filterMap Part.declarationSpan?)
    (hr : ReadsAs (before ++ chunk) rest r) :
    ∀ span ∈ spans, Text.byteSize before < span.stop →
      Text.byteSize (before ++ chunk) ≤ span.start := by
  intro span hspan hlt
  have hmem := (h.mem_spans_iff span hlt).1 hspan
  rw [hspans] at hmem
  exact hr.le_start hmem

theorem IsText.depth (h : IsText chunk rest) :
    chunk.foldl depthAfter 0 = 0 ∨ rest = [] := by
  cases h with
  | pair => exact .inl rfl
  | backslash => exact .inl rfl
  | @group group _ hgroup =>
    have hencloses := encloses_of_splitGroup hgroup
    exact hencloses.closed.imp_left And.left
  | @char c _ _ hbrace =>
    left
    rw [List.foldl_cons, List.foldl_nil, depthAfter, if_neg hbrace]
    split <;> rfl

theorem IsText.paired (h : IsText chunk rest)
    (hbefore : trailingBackslashes before % 2 = 0 ∨ (chunk ++ rest).head? ≠ some '\\') :
    trailingBackslashes (before ++ chunk) % 2 = 0 ∨ rest.head? ≠ some '\\' := by
  cases h with
  | pair =>
    left
    have heven := hbefore.resolve_right (fun hne => hne rfl)
    rw [List.append_cons, trailingBackslashes_concat, trailingBackslashes_concat]
    simp only [if_true]
    omega
  | backslash hnext => exact .inr hnext
  | @group group _ hgroup =>
    have hencloses := encloses_of_splitGroup hgroup
    refine hencloses.closed.imp (fun hclosed => ?_) fun hrest => ?_
    · rw [List.append_cons, trailingBackslashes_of_getLast? hclosed.2 (by decide)]
    · rw [hrest]
      nofun
  | char hbackslash =>
    left
    rw [trailingBackslashes_concat, if_neg hbackslash]

theorem IsText.quiet (h : IsText chunk rest) (hbraces : openBraces spans before = 0)
    (hspans : ∀ span ∈ spans, Text.byteSize before < span.stop →
      Text.byteSize (before ++ chunk) ≤ span.start)
    (hbefore : trailingBackslashes before % 2 = 0 ∨ (chunk ++ rest).head? ≠ some '\\') :
    Quiet spans before chunk rest := by
  cases h with
  | pair =>
    have heven := hbefore.resolve_right (fun hne => hne rfl)
    refine (quiet_nil.cons fun hactive => ?_).cons fun hactive => ?_
    · have hodd := hactive.of_backslash.1
      rw [trailingBackslashes_concat, if_pos rfl] at hodd
      omega
    · cases hactive.of_backslash.2
  | backslash hnext hstarts =>
    refine quiet_nil.cons fun hactive => ?_
    cases hstarts.symm.trans hactive.of_backslash.2
  | @group group _ hgroup =>
    have hencloses := encloses_of_splitGroup hgroup
    refine Quiet.cons (fun mid a after hmid hactive => ?_) fun hactive => ?_
    · have hinside := hencloses.inside mid a after hmid
      have hapart : ∀ span ∈ spans, Text.byteSize before < span.stop →
          Text.byteSize (before ++ '{' :: mid) ≤ span.start := by
        intro span hspan hlt
        have hle := hspans span hspan hlt
        rw [← hmid] at hle
        simp only [Text.byteSize_append, Text.byteSize_cons] at *
        omega
      have hunbraced := hactive.unbraced
      rw [← List.append_cons, openBraces_append_of_apart hapart, hbraces] at hunbraced
      exact absurd hunbraced (Nat.ne_of_gt hinside)
    · obtain ⟨direction, hmarker⟩ | hmarker := hactive.eq_marker
      · cases direction <;> cases hmarker
      · cases hmarker
  | char hbackslash hbrace hmarker =>
    refine quiet_nil.cons fun hactive => ?_
    obtain ⟨⟨direction, hdirection⟩, d, hd, hword⟩ | ⟨hc, -⟩ := hactive.marks
    · exact hmarker direction (Direction.ofMarker?_eq_some_iff.2 hdirection) d hd hword
    · exact hbackslash hc

theorem Aligned.after_text (h : Aligned spans before (chunk ++ rest) (r.afterText chunk))
    (hchunk : IsText chunk rest) (hr : ReadsAs (before ++ chunk) rest r) :
    Quiet spans before chunk rest ∧ Aligned spans (before ++ chunk) rest r := by
  have hspans := h.le_start (r := r) rfl hr
  have hbraces : openBraces spans before = 0 :=
    h.unbraced_of_ne_nil (List.append_ne_nil_of_left_ne_nil
      (List.ne_nil_of_length_pos hchunk.length_pos) rest)
  refine ⟨hchunk.quiet hbraces hspans h.paired, ?_, hchunk.paired h.paired, ?_⟩
  · rw [openBraces_append_of_apart hspans, hbraces]
    exact hchunk.depth
  · intro span hlt
    refine h.mem_spans_iff span ?_
    rw [Text.byteSize_append] at hlt
    omega

theorem quiet_of_word {name : List Char} (hword : ∀ c ∈ name, Token.isWordRest c) :
    Quiet spans before name rest := by
  intro mid a after hmid hactive
  refine hactive.not_isWordRest (hword a ?_)
  rw [← hmid]
  exact List.mem_append_right _ List.mem_cons_self

theorem foldl_depthAfter_of_word {name : List Char} (hword : ∀ c ∈ name, Token.isWordRest c)
    (depth : Nat) : name.foldl depthAfter depth = depth := by
  induction name with
  | nil => rfl
  | cons c name ih =>
    obtain ⟨hc, hname⟩ := List.forall_mem_cons.1 hword
    have hdepth : depthAfter depth c = depth := by
      rw [depthAfter, if_neg, if_neg]
      · rintro rfl
        cases hc
      · rintro rfl
        cases hc
    rw [List.foldl_cons, hdepth, ih hname]

theorem Aligned.after_part {c : Char} {tail : List Char} {part : Part}
    (h : Aligned spans before (c :: tail ++ rest) (r.afterPart part))
    (hpart : IsPart before (c :: tail) rest part) (hr : ReadsAs (before ++ c :: tail) rest r) :
    IsActive spans before c (tail ++ rest) ∧ Quiet spans (before ++ [c]) tail rest ∧
      Aligned spans (before ++ c :: tail) rest r := by
  have hbraces : openBraces spans before = 0 := h.unbraced_of_ne_nil (List.cons_ne_nil _ _)
  have houtside : ∀ span ∈ spans,
      ¬(span.start < Text.byteSize before ∧ Text.byteSize before < span.stop) := by
    rintro span hspan ⟨hstart, hstop⟩
    have := (ReadsAs.part hpart hr).le_start ((h.mem_spans_iff span hstop).1 hspan)
    omega
  have hafter {span : Span} (hlt : Text.byteSize (before ++ c :: tail) < span.stop) :
      Text.byteSize before < span.stop := by
    rw [Text.byteSize_append] at hlt
    omega
  cases hpart with
  | @declaration _ _ d span hlast hstarts hspan hparse =>
    have hstop : span.stop = Text.byteSize (before ++ '\\' :: tail) := by rw [hspan]
    have hmem : span ∈ spans := by
      refine (h.mem_spans_iff span ?_).2 List.mem_cons_self
      rw [hstop, Text.byteSize_append]
      exact Nat.lt_add_of_pos_right (Text.byteSize_pos (Nat.zero_lt_succ _))
    have heven := h.paired.resolve_right fun hne => hne rfl
    refine ⟨⟨houtside, hbraces, .inr ⟨rfl, heven, hstarts⟩⟩, ?_, ?_, ?_, ?_⟩
    · intro mid a after hmid hactive
      refine hactive.outside span hmem ?_
      have hbackslash := Char.utf8Size_pos '\\'
      have ha := a.utf8Size_pos
      rw [hspan, ← hmid]
      simp only [Text.byteSize_append, Text.byteSize_cons, Text.byteSize_nil]
      omega
    · left
      have hstart : span.start = Text.byteSize before := by rw [hspan]
      rw [openBraces_append_of_mem hmem (Nat.le_of_eq hstart) (Nat.le_of_eq hstop.symm), hbraces]
    · left
      rw [List.append_cons, trailingBackslashes_of_getLast? hlast (by decide)]
    · intro span' hlt
      rw [h.mem_spans_iff span' (hafter hlt), Remainder.filterMap_afterPart fun _ => rfl]
      refine List.mem_cons.trans (or_iff_right ?_)
      rintro rfl
      omega
  | @reference _ _ direction span hname hword hrest hspan =>
    have hspans := h.le_start (Remainder.filterMap_afterPart (fun _ => rfl) r _) hr
    refine ⟨⟨houtside, hbraces, ?_⟩, quiet_of_word hword, ?_, ?_, ?_⟩
    · obtain ⟨d, name, rfl⟩ := List.exists_cons_of_ne_nil hname
      exact .inl ⟨⟨direction, rfl⟩, d, rfl, hword d List.mem_cons_self⟩
    · left
      have hmarker : depthAfter 0 direction.marker = 0 := by cases direction <;> rfl
      rw [openBraces_append_of_apart hspans, hbraces, List.foldl_cons, hmarker,
        foldl_depthAfter_of_word hword]
    · left
      have hlast : tail.getLast hname ≠ '\\' := by
        intro heq
        have := hword _ (List.getLast_mem hname)
        rw [heq] at this
        cases this
      rw [List.append_cons,
        trailingBackslashes_of_getLast? (List.getLast?_eq_some_getLast hname) hlast]
    · intro span' hlt
      rw [h.mem_spans_iff span' (hafter hlt), Remainder.filterMap_afterPart fun _ => rfl]
      rfl

theorem ReadsAs.mem_markers_iff (h : ReadsAs before text r) (haligned : Aligned spans before text r)
    (c : Char) (offset : Nat) :
    (c, offset) ∈ r.parts.filterMap Part.marker? ↔ ActiveIn spans before text c offset := by
  induction h with
  | nil =>
    refine ⟨nofun, ?_⟩
    rintro ⟨mid, after, hmid, -⟩
    cases List.append_ne_nil_of_right_ne_nil _ (List.cons_ne_nil c after) hmid
  | text hchunk h ih =>
    obtain ⟨hquiet, haligned⟩ := haligned.after_text hchunk h
    rw [hquiet.activeIn_iff]
    exact ih haligned
  | part hpart h ih =>
    obtain ⟨a, tail, rfl, hmarker⟩ := hpart.exists_marker
    obtain ⟨hactive, hquiet, haligned⟩ := haligned.after_part hpart h
    rw [Remainder.filterMap_afterPart fun _ => rfl, hmarker, Option.toList_some,
      List.singleton_append, List.mem_cons, ih haligned, List.cons_append, activeIn_cons,
      hquiet.activeIn_iff, ← List.append_cons, Prod.mk.injEq]
    refine or_congr_left ⟨?_, ?_⟩
    · rintro ⟨rfl, rfl⟩
      exact ⟨rfl, rfl, hactive⟩
    · rintro ⟨rfl, rfl, -⟩
      exact ⟨rfl, rfl⟩

end

end

/--
Reading a document divides its source exactly at the active markers: the parts together are the
source, with no empty texts and no two of them in a row, the references are markers with the whole
words after them, and all other characters of the source are text or in a declaration.
-/
theorem divides_of_ofSource {source : String} {doc : Document}
    (h : Document.ofSource source = .ok doc) : doc.Divides source := by
  obtain ⟨r, hr, h⟩ := exists_of_bind_eq_ok h
  cases h
  have hreads : ReadsAs [] source.toList r := readsAs_of_read hr
  have hsource : [] ++ source.toList = source.toList := rfl
  have hspans := Remainder.filterMap_toParts (f := Part.declarationSpan?) (fun _ => rfl) r
  have hmarkers := Remainder.filterMap_toParts (f := Part.marker?) (fun _ => rfl) r
  have haligned : Aligned (r.toParts.filterMap Part.declarationSpan?) [] source.toList r :=
    ⟨.inl rfl, .inl rfl, fun span _ => by rw [hspans]⟩
  constructor
  · obtain ⟨texts, htexts, hjoin⟩ := (hreads.covers hsource).toParts
    exact ⟨texts, htexts, String.toList_inj.1 hjoin⟩
  · exact hreads.apart.text_ne_empty_toParts
  · exact hreads.apart.isChain_toParts
  · intro direction target hmem
    rcases Remainder.mem_toParts hmem with hmem | ⟨-, hmem⟩
    · exact hreads.exists_of_reference hsource hmem
    · cases hmem
  · rw [hmarkers]
    exact hreads.markers_increase.2
  · intro c offset
    rw [hmarkers]
    exact hreads.mem_markers_iff haligned c offset

def notesSource : String :=
  "x \x7d \\\\\\fun\x7bf\x7d\x7ba\x7d\x7b return \"\x7d\"; \x7d " ++
  "\x7b@no \\fun\x7b\x7d\x7d @a!b_1 @ \x7b@"

def notes : Document where
  parts := [
    .text "x \x7d \\\\",
    .declaration (.function { name := "f", span := ⟨11, 12⟩ } [{ name := "a", span := ⟨14, 15⟩ }]
      [.return (.string "\x7d")]) ⟨6, 31⟩,
    .text " \x7b@no \\fun\x7b\x7d\x7d ",
    .reference .up { name := "a", span := ⟨45, 47⟩ },
    .reference .down { name := "b_1", span := ⟨47, 51⟩ },
    .text " @ \x7b@"]

theorem ofSource_notesSource : Document.ofSource notesSource = .ok notes := by
  cbv

theorem divides_notes : Document.ofSource notesSource = .ok notes ∧ notes.Divides notesSource :=
  ⟨ofSource_notesSource, divides_of_ofSource ofSource_notesSource⟩

end Document

end LiterateFun
