import LiterateFun.Proofs.ErrorLocations
import LiterateFun.Proofs.Spacing.Tiling

/-!
This module contains scanning from the middle of a source. Every token says the line and the column
of its start, and scanning from there on yields the token itself and those after it.
-/

namespace LiterateFun

namespace Token

structure IsPlaced (source : String) (t : Token) : Prop where
  shown : Position.shown? source t.span.start = some t.position
  /-- Counting the line feeds of the text before the token yields the same. -/
  counted : ∃ before, before <+: source.toList ∧ Text.byteSize before = t.span.start ∧
    (t.position.line, t.position.column) = Text.lineColumn before

theorem isPlaced_of_position {source : String} {t : Token} {before after : List Char}
    (hsource : before ++ after = source.toList) (h : t.position = Position.first.after before) :
    t.IsPlaced source := by
  have hstart : t.span.start = Text.byteSize before := by
    rw [span_of_position h]
  constructor
  · rw [hstart, h, Position.shown?_byteSize hsource]
  · refine ⟨before, ⟨after, hsource⟩, hstart.symm, ?_⟩
    rw [h, Position.lineColumn_after_first]

theorem StartsToken.splitGap_eq {c : Char} {text : List Char} (h : StartsToken c text) :
    Token.splitGap (c :: text) = ([], c :: text) := by
  rw [Token.splitGap, splitGap.go, if_neg Bool.false_ne_true, if_neg h.1, if_neg h.2]

theorem splitGap_rest (text : List Char) :
    splitGap (splitGap text).2 = ([], (splitGap text).2) := by
  cases h : (splitGap text).2 with
  | nil => rfl
  | cons c rest => exact (startsToken_of_go h).splitGap_eq

theorem scan_after_gap (p : Position) (text : List Char) :
    scan (p.after (splitGap text).1) (splitGap text).2 = scan p text := by
  have hgap := splitGap_rest text
  cases hrest : (splitGap text).2 with
  | nil =>
    rw [hrest] at hgap
    rw [scan_of_gap hrest, scan_of_gap (congrArg Prod.snd hgap), hgap, Position.after_nil]
  | cons c rest =>
    rw [hrest] at hgap
    rw [scan_of_read hrest, scan_of_read (congrArg Prod.snd hgap), hgap, Position.after_nil]

theorem exists_scan_eq_of_scan_eq_append {p : Position} {text : List Char} {ts₁ ts₂ : List Token}
    {t : Token} (h : scan p text = ts₁ ++ t :: ts₂) :
    ∃ before rest, before ++ rest = text ∧ t.position = p.after before ∧
      scan (p.after before) rest = t :: ts₂ := by
  fun_induction scan p text generalizing ts₁
  case case1 p text p' hrest =>
    cases ts₁ with
    | nil =>
      refine ⟨(splitGap text).1, (splitGap text).2, splitGap_append text, ?_, ?_⟩
      · cases h
        rfl
      · rw [scan_after_gap, scan_of_gap hrest]
        exact h
    | cons t₁ ts₁ => simp at h
  case case2 p text p' c rest hrest r ih =>
    cases ts₁ with
    | nil =>
      refine ⟨(splitGap text).1, (splitGap text).2, splitGap_append text, ?_, ?_⟩
      · cases h
        rfl
      · rw [scan_after_gap, scan_of_read hrest]
        exact h
    | cons t₁ ts₁ =>
      obtain ⟨before, after, hbefore, hposition, hscan⟩ := ih (List.cons.inj h).2
      have hafter : p.after ((splitGap text).1 ++ (r.lexeme ++ before)) =
          (p'.after r.lexeme).after before := by
        simp only [Position.after_append]
        rfl
      refine ⟨(splitGap text).1 ++ (r.lexeme ++ before), after, ?_, ?_, ?_⟩
      · have hsplit := splitGap_append text
        rw [hrest, ← read_splits c rest] at hsplit
        rw [List.append_assoc, List.append_assoc, hbefore]
        exact hsplit
      · rw [hafter, hposition]
      · rw [hafter, hscan]

/--
From every offset where a character may start, the source is divided into tokens that say the line
and the column of their starts. Scanning from the start of one of them yields it and those after it.
-/
theorem exists_restarting_of_isValid {source : String} {offset : Nat}
    (h : (String.Pos.Raw.mk offset).IsValid source) :
    ∃ ts, scanFrom? source offset = some ts ∧ (∀ t ∈ ts, t.IsPlaced source) ∧
      ∀ ts₁ t ts₂, ts = ts₁ ++ t :: ts₂ → scanFrom? source t.span.start = some (t :: ts₂) := by
  obtain ⟨before, text, hsource, rfl⟩ := Text.isValid_iff.1 h
  have hrestart {ts₁ ts₂ : List Token} {t : Token}
      (hscan : scan (Position.first.after before) text = ts₁ ++ t :: ts₂) :
      ∃ taken rest, taken ++ rest = source.toList ∧ t.position = Position.first.after taken ∧
        scan (Position.first.after taken) rest = t :: ts₂ := by
    obtain ⟨skipped, rest, rfl, hposition, hrest⟩ := exists_scan_eq_of_scan_eq_append hscan
    rw [← Position.after_append] at hposition hrest
    exact ⟨before ++ skipped, rest, by rw [List.append_assoc, hsource], hposition, hrest⟩
  refine ⟨_, scanFrom?_eq_some_iff.2 ⟨before, text, hsource, rfl, rfl⟩, ?_, ?_⟩
  · intro t ht
    obtain ⟨ts₁, ts₂, hscan⟩ := List.append_of_mem ht
    obtain ⟨taken, rest, htaken, hposition, -⟩ := hrestart hscan
    exact isPlaced_of_position htaken hposition
  · intro ts₁ t ts₂ hscan
    obtain ⟨taken, rest, htaken, hposition, hrest⟩ := hrestart hscan
    rw [span_of_position hposition]
    exact scanFrom?_eq_some_iff.2 ⟨taken, rest, htaken, rfl, hrest⟩

def brokenLines : String :=
  "é\n'a\nb' // é\n x;"

theorem exists_restarting_brokenLines :
    ∃ ts, scanFrom? brokenLines 3 = some ts ∧ (∀ t ∈ ts, t.IsPlaced brokenLines) ∧
      ts.map (fun t => (t.span.start, t.position.line, t.position.column)) =
        [(3, 2, 1), (16, 4, 2), (17, 4, 3), (18, 4, 4)] ∧
      scanFrom? brokenLines 16 = some (ts.drop 1) := by
  have hvalid : (String.Pos.Raw.mk 3).IsValid brokenLines :=
    Text.isValid_iff.2 ⟨['é', '\n'], "'a\nb' // é\n x;".toList, by decide +kernel, rfl⟩
  have htokens : (scanFrom? brokenLines 3).map
      (List.map fun t => (t.span.start, t.position.line, t.position.column)) =
        some [(3, 2, 1), (16, 4, 2), (17, 4, 3), (18, 4, 4)] := by
    decide +kernel
  obtain ⟨ts, hts, hplaced, hrestart⟩ := exists_restarting_of_isValid hvalid
  rw [hts] at htokens
  have hstarts := Option.some.inj htokens
  refine ⟨ts, hts, hplaced, hstarts, ?_⟩
  obtain ⟨t₁, ts₁, rfl, -, hrest⟩ := List.map_eq_cons_iff.1 hstarts
  obtain ⟨t₂, ts₂, rfl, ht₂, -⟩ := List.map_eq_cons_iff.1 hrest
  rw [← (Prod.mk.inj ht₂).1]
  exact hrestart [t₁] t₂ ts₂ rfl

end Token

end LiterateFun
