import LiterateFun.Proofs.Locations
import LiterateFun.Proofs.Spacing.Scanning

/-!
This module contains the division of a source into tokens. Each token has a text of its own, they
stand one after another with only blanks and comments between them, and the last one is the end.
-/

namespace LiterateFun

theorem Text.byteSize_toList (s : String) : byteSize s.toList = s.utf8ByteSize := by
  rw [byteSize_eq_size, String.utf8Encode_toList]
  apply String.size_toByteArray

theorem Text.isValid_iff {source : String} {offset : Nat} :
    (String.Pos.Raw.mk offset).IsValid source ↔
      ∃ before rest, before ++ rest = source.toList ∧ byteSize before = offset := by
  rw [String.Pos.Raw.isValid_iff_exists_append]
  constructor
  · rintro ⟨before, rest, rfl, hoffset⟩
    refine ⟨before.toList, rest.toList, String.toList_append.symm, ?_⟩
    rw [byteSize_toList]
    exact (congrArg String.Pos.Raw.byteIdx hoffset).symm
  · rintro ⟨before, rest, hsource, rfl⟩
    refine ⟨String.ofList before, String.ofList rest, ?_, ?_⟩
    · rw [← String.ofList_append, hsource, String.ofList_toList]
    · rw [String.rawEndPos, ← byteSize_toList, String.toList_ofList]

namespace Span

def IsFiller (source : String) (span : Span) : Prop :=
  ∃ text, span.text? source = some text ∧
    Token.IsFillerTo (span.stop = source.utf8ByteSize) text.toList

theorem isValid_of_text? {source text : String} {span : Span} (h : span.text? source = some text) :
    (String.Pos.Raw.mk span.start).IsValid source ∧ (String.Pos.Raw.mk span.stop).IsValid source ∧
      span.start ≤ span.stop := by
  obtain ⟨before, after, hsource, rfl⟩ := text?_eq_some_iff.1 h
  refine ⟨Text.isValid_iff.2 ⟨_, _, hsource, rfl⟩, Text.isValid_iff.2 ⟨_, after, ?_, rfl⟩, ?_⟩
  · rw [List.append_assoc, hsource]
  · simp

end Span

namespace Token

structure Tile (source : String) (offset : Nat) (ts : List Token) : Prop where
  /-- The last token, and no other one, is the end of the source. The others have a text. -/
  ends : ∃ init t, ts = init ++ [t] ∧ t.kind = .endOfInput ∧
    t.span = ⟨source.utf8ByteSize, source.utf8ByteSize⟩ ∧
    ∀ u ∈ init, u.kind ≠ .endOfInput ∧ u.span.start < u.span.stop
  ordered : ts.Pairwise fun t u => t.span.stop ≤ u.span.start
  /-- Each token has the text that stands in the source where the token says. -/
  lexemes : ∀ t ∈ ts, t.span.text? source = some t.lexeme ∧
    (String.Pos.Raw.mk t.span.start).IsValid source ∧
    (String.Pos.Raw.mk t.span.stop).IsValid source
  leading : ∀ t ∈ ts.head?, Span.IsFiller source ⟨offset, t.span.start⟩
  between : ts.IsChain fun t u => Span.IsFiller source ⟨t.span.stop, u.span.start⟩

namespace Tile

variable {source : String} {offset : Nat} {t u : Token} {ts : List Token}

theorem start_lt_stop (h : Tile source offset ts) (ht : t ∈ ts) (hkind : t.kind ≠ .endOfInput) :
    t.span.start < t.span.stop := by
  obtain ⟨init, last, rfl, hlast, -, hinit⟩ := h.ends
  rcases List.mem_append.1 ht with ht | ht
  · exact (hinit t ht).2
  · rw [List.mem_singleton.1 ht] at hkind
    exact absurd hlast hkind

theorem start_le_stop (h : Tile source offset ts) (ht : t ∈ ts) : t.span.start ≤ t.span.stop :=
  (Span.isValid_of_text? (h.lexemes t ht).1).2.2

theorem start_le_of_mem_cons (h : Tile source offset (t :: ts)) (hu : u ∈ ts) :
    t.span.start ≤ u.span.start := by
  have hordered := (List.pairwise_cons.1 h.ordered).1 u hu
  have ht := h.start_le_stop List.mem_cons_self
  omega

theorem stop_le_of_mem_concat {ts' : List Token} (h : Tile source offset (ts ++ t :: ts'))
    (hu : u ∈ ts ++ [t]) : u.span.stop ≤ t.span.stop := by
  rcases List.mem_append.1 hu with hu | hu
  · have hordered := (List.pairwise_append.1 h.ordered).2.2 u hu t List.mem_cons_self
    have ht := h.start_le_stop (List.mem_append_right ts List.mem_cons_self)
    omega
  · obtain rfl := List.mem_singleton.1 hu
    exact Nat.le_refl _

theorem le_start (h : Tile source offset ts) : ∀ t ∈ ts, offset ≤ t.span.start := by
  intro u hu
  cases ts with
  | nil => cases hu
  | cons t ts =>
    obtain ⟨gap, hgap, -⟩ := h.leading t rfl
    have hstart : offset ≤ t.span.start := (Span.isValid_of_text? hgap).2.2
    cases hu with
    | head => exact hstart
    | tail _ hu => exact Nat.le_trans hstart (h.start_le_of_mem_cons hu)

theorem last (hkind : t.kind = .endOfInput)
    (hspan : t.span = ⟨source.utf8ByteSize, source.utf8ByteSize⟩)
    (htext : t.span.text? source = some t.lexeme)
    (hgap : Span.IsFiller source ⟨offset, t.span.start⟩) : Tile source offset [t] where
  ends := ⟨[], t, rfl, hkind, hspan, List.forall_mem_nil _⟩
  ordered := List.pairwise_singleton _ t
  lexemes := by
    have hvalid := Span.isValid_of_text? htext
    exact List.forall_mem_singleton.2 ⟨htext, hvalid.1, hvalid.2.1⟩
  leading := by
    rintro _ ⟨⟩
    exact hgap
  between := .singleton t

theorem cons (hkind : t.kind ≠ .endOfInput) (hspan : t.span.start < t.span.stop)
    (htext : t.span.text? source = some t.lexeme)
    (hgap : Span.IsFiller source ⟨offset, t.span.start⟩) (h : Tile source t.span.stop ts) :
    Tile source offset (t :: ts) where
  ends := by
    obtain ⟨init, last, rfl, hlast, hend, hinit⟩ := h.ends
    exact ⟨t :: init, last, rfl, hlast, hend, List.forall_mem_cons.2 ⟨⟨hkind, hspan⟩, hinit⟩⟩
  ordered := List.pairwise_cons.2 ⟨h.le_start, h.ordered⟩
  lexemes := by
    have hvalid := Span.isValid_of_text? htext
    exact List.forall_mem_cons.2 ⟨⟨htext, hvalid.1, hvalid.2.1⟩, h.lexemes⟩
  leading := by
    rintro _ ⟨⟩
    exact hgap
  between := by
    cases ts with
    | nil => exact .singleton t
    | cons u ts => exact .cons_cons (h.leading u rfl) h.between

end Tile

theorem isFiller_gap {source : String} {before text : List Char}
    (hsource : before ++ text = source.toList) :
    Span.IsFiller source ⟨Text.byteSize before, Text.byteSize (before ++ (splitGap text).1)⟩ := by
  have hgap := splitGap_append text
  refine ⟨String.ofList (splitGap text).1, ?_, ?_⟩
  · apply Span.text?_eq_some_iff.2
    refine ⟨before, (splitGap text).2, ?_, ?_⟩
    · rw [String.toList_ofList, hgap, hsource]
    · rw [String.toList_ofList]
  · rw [String.toList_ofList]
    apply (isFillerTo_splitGap text).mono
    intro hrest
    rw [hrest, List.append_nil] at hgap
    rw [hgap, hsource, Text.byteSize_toList]

theorem tile_scan {source : String} {before text : List Char}
    (hsource : before ++ text = source.toList) :
    Tile source (Text.byteSize before) (scan (Position.first.after before) text) := by
  generalize hp : Position.first.after before = p
  fun_induction scan p text generalizing before
  case case1 p text p' hrest =>
    have hposition : p' = Position.first.after (before ++ (splitGap text).1) := by
      rw [Position.after_append, hp]
    have hend : before ++ (splitGap text).1 = source.toList := by
      have hgap := splitGap_append text
      rw [hrest, List.append_nil] at hgap
      rw [hgap, hsource]
    have hlexeme : (before ++ (splitGap text).1) ++ ("".toList ++ []) = source.toList := by
      rw [hend, String.toList_empty, List.append_nil, List.append_nil]
    have hspan := span_of_position (t := ⟨.endOfInput, "", p'⟩) hposition
    apply Tile.last rfl
    · rw [hspan, String.toList_empty, List.append_nil, hend, Text.byteSize_toList]
    · exact text?_of_position hposition hlexeme
    · rw [hspan]
      exact isFiller_gap hsource
  case case2 p text p' c rest hrest r ih =>
    have hposition : p' = Position.first.after (before ++ (splitGap text).1) := by
      rw [Position.after_append, hp]
    have hlexeme : (before ++ (splitGap text).1) ++ ((String.ofList r.lexeme).toList ++ r.rest) =
        source.toList := by
      rw [String.toList_ofList, read_splits c rest, ← hrest, List.append_assoc, splitGap_append,
        hsource]
    have hspan := span_of_position (t := ⟨r.value, String.ofList r.lexeme, p'⟩) hposition
    apply Tile.cons (read_ne_endOfInput c rest)
    · have hpos : 0 < Text.byteSize r.lexeme :=
        Text.byteSize_pos (List.length_pos_iff.2 (read_lexeme_ne_nil c rest))
      rw [hspan, String.toList_ofList]
      simp only [Text.byteSize_append _ r.lexeme]
      omega
    · exact text?_of_position hposition hlexeme
    · rw [hspan]
      exact isFiller_gap hsource
    · rw [hspan]
      apply ih
      · rw [List.append_assoc, hlexeme]
      · rw [Position.after_append, hposition, String.toList_ofList]

/-- From every offset where a character may start, the tokens divide the rest of the source. -/
theorem exists_tile_of_isValid {source : String} {offset : Nat}
    (h : (String.Pos.Raw.mk offset).IsValid source) :
    ∃ ts, scanFrom? source offset = some ts ∧ Tile source offset ts := by
  obtain ⟨before, rest, hsource, rfl⟩ := Text.isValid_iff.1 h
  refine ⟨scan (Position.first.after before) rest, ?_, tile_scan hsource⟩
  apply scanFrom?_eq_some_iff.2
  exact ⟨before, rest, hsource, rfl, rfl⟩

def flawedSource : String :=
  "é@ 'a\\q 0x // é\n x1//"

theorem exists_tile_flawedSource :
    ∃ ts, scanFrom? flawedSource 2 = some ts ∧ Tile flawedSource 2 ts ∧
      ts.map (fun t => (t.lexeme, t.span)) =
        [("@", ⟨2, 3⟩), ("'a\\q", ⟨4, 8⟩), ("0x", ⟨9, 11⟩), ("x1", ⟨19, 21⟩), ("", ⟨23, 23⟩)] := by
  have hvalid : (String.Pos.Raw.mk 2).IsValid flawedSource :=
    Text.isValid_iff.2 ⟨['é'], "@ 'a\\q 0x // é\n x1//".toList, by decide +kernel, rfl⟩
  have htokens : (scanFrom? flawedSource 2).map (List.map fun t => (t.lexeme, t.span)) =
      some [("@", ⟨2, 3⟩), ("'a\\q", ⟨4, 8⟩), ("0x", ⟨9, 11⟩), ("x1", ⟨19, 21⟩),
        ("", ⟨23, 23⟩)] := by
    decide +kernel
  obtain ⟨ts, hts, htile⟩ := exists_tile_of_isValid hvalid
  rw [hts] at htokens
  exact ⟨ts, hts, htile, Option.some.inj htokens⟩

end Token

end LiterateFun
