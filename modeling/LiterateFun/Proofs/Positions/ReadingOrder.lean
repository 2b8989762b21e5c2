import LiterateFun.Command.Run
import LiterateFun.Proofs.Positions.Restarting
import LiterateFun.Proofs.Printing.Leaves
import Mathlib.Data.Prod.Lex

/-!
This module contains the order of the places of a source. Reading on leads to a later line, or to a
later column of the same line, so that the line and the column of a message tell which offset of the
source it is about.
-/

namespace LiterateFun

theorem Text.exists_append_of_byteSize_lt {text u v : List Char} (hu : u <+: text)
    (hv : v <+: text) (h : byteSize u < byteSize v) :
    ∃ between, between ≠ [] ∧ u ++ between = v := by
  cases List.prefix_or_prefix_of_prefix hu hv with
  | inl huv =>
    obtain ⟨between, rfl⟩ := huv
    refine ⟨between, ?_, rfl⟩
    rintro rfl
    rw [List.append_nil] at h
    exact absurd h (Nat.lt_irrefl _)
  | inr hvu =>
    obtain ⟨rest, rfl⟩ := hvu
    rw [byteSize_append] at h
    omega

namespace Position

def lineColumn (p : Position) : Nat ×ₗ Nat :=
  toLex (p.line, p.column)

theorem lineColumn_lt_next (p : Position) (c : Char) : p.lineColumn < (p.next c).lineColumn := by
  rw [lineColumn, lineColumn, Prod.Lex.toLex_lt_toLex]
  by_cases hc : c = '\n'
  · left
    simp [next, hc]
  · right
    simp [next, hc]

theorem lineColumn_le_after (p : Position) (text : List Char) :
    p.lineColumn ≤ (p.after text).lineColumn := by
  induction text generalizing p with
  | nil => exact le_refl _
  | cons c text ih => exact (p.lineColumn_lt_next c).le.trans (ih (p.next c))

theorem lineColumn_lt_after (p : Position) {text : List Char} (h : text ≠ []) :
    p.lineColumn < (p.after text).lineColumn := by
  obtain ⟨c, rest, rfl⟩ := List.exists_cons_of_ne_nil h
  exact (p.lineColumn_lt_next c).trans_le (lineColumn_le_after (p.next c) rest)

variable {source : String}

theorem shown?_eq_some_iff {offset : Nat} (h : offset ≤ source.utf8ByteSize) {p : Position} :
    shown? source offset = some p ↔
      ∃ before, before <+: source.toList ∧ Text.byteSize before = offset ∧
        p = first.after before := by
  constructor
  · intro hshown
    rw [shown?, Text.byteSize_toList, Nat.min_eq_left h, ofOffset?,
      Option.map_eq_some_iff] at hshown
    obtain ⟨⟨q, rest⟩, hseek, rfl⟩ := hshown
    obtain ⟨before, hsource, rfl, rfl⟩ := seek?_eq_some_iff.1 hseek
    exact ⟨before, ⟨rest, hsource⟩, (offset_after_first before).symm, rfl⟩
  · rintro ⟨before, ⟨rest, hsource⟩, rfl, rfl⟩
    exact shown?_byteSize hsource

theorem eq_after_first_iff {p : Position} {before : List Char} :
    p = first.after before ↔
      p.offset = Text.byteSize before ∧ p.lineColumn = toLex (Text.lineColumn before) := by
  rw [← offset_after_first, ← lineColumn_after_first, lineColumn, toLex_inj, Prod.mk.injEq]
  cases p
  cases first.after before
  simp

theorem shown?_of_utf8ByteSize_le {offset : Nat} (h : source.utf8ByteSize ≤ offset) :
    shown? source offset = some (first.after source.toList) := by
  rw [← Text.byteSize_toList] at h
  rw [shown?, Nat.min_eq_right h]
  exact ofOffset?_byteSize (List.append_nil _)

theorem exists_shown?_of_isValid {offset : Nat} (h : (String.Pos.Raw.mk offset).IsValid source) :
    offset ≤ source.utf8ByteSize ∧ ∃ p, shown? source offset = some p := by
  obtain ⟨before, rest, hsource, rfl⟩ := Text.isValid_iff.1 h
  refine ⟨?_, _, shown?_byteSize hsource⟩
  rw [← Text.byteSize_toList, ← hsource, Text.byteSize_append]
  exact Nat.le_add_right ..

theorem lineColumn_lt_of_shown? {a b : Nat} {p q : Position} (hlt : a < b)
    (hb : b ≤ source.utf8ByteSize) (hp : shown? source a = some p) (hq : shown? source b = some q) :
    p.lineColumn < q.lineColumn := by
  obtain ⟨before, hbefore, rfl, rfl⟩ := (shown?_eq_some_iff (hlt.le.trans hb)).1 hp
  obtain ⟨before', hbefore', rfl, rfl⟩ := (shown?_eq_some_iff hb).1 hq
  obtain ⟨between, hne, rfl⟩ := Text.exists_append_of_byteSize_lt hbefore hbefore' hlt
  rw [after_append]
  exact lineColumn_lt_after _ hne

theorem eq_of_lineColumn_eq {a b : Nat} {p q : Position} (ha : a ≤ source.utf8ByteSize)
    (hb : b ≤ source.utf8ByteSize) (hp : shown? source a = some p) (hq : shown? source b = some q)
    (h : p.lineColumn = q.lineColumn) : a = b := by
  rcases Nat.lt_trichotomy a b with hlt | heq | hlt
  · exact absurd h (lineColumn_lt_of_shown? hlt hb hp hq).ne
  · exact heq
  · exact absurd h (lineColumn_lt_of_shown? hlt ha hq hp).ne'

end Position

theorem lineColumn_eq_of_messageAt {path source m n : String} {s t : Span} {p q : Position}
    (hp : Position.shown? source s.start = some p) (hq : Position.shown? source t.start = some q)
    (h : messageAt path source (some s) m = messageAt path source (some t) n) :
    p.lineColumn = q.lineColumn ∧ m = n := by
  -- Two messages with the same text have the same line and column, since these end at a colon.
  -- Both start with the name of the input, and what is left starts with the digits of the lines.
  have hlist := congrArg String.toList h
  simp only [messageAt, Option.bind_some, hp, hq, String.toList_append, List.append_assoc,
    List.append_cancel_left_eq] at hlist
  obtain ⟨hline, hlist⟩ := Text.decimal_append_inj (d := ':') rfl hlist
  obtain ⟨hcolumn, hlist⟩ := Text.decimal_append_inj (d := ':') rfl hlist
  refine ⟨?_, String.toList_inj.1 (List.cons.inj hlist).2⟩
  rw [Position.lineColumn, Position.lineColumn, hline, hcolumn]

structure Position.IdentifyOffsets (source : String) : Prop where
  /-- The line and the column of an offset are counted in the text before it. -/
  counted : ∀ offset ≤ source.utf8ByteSize, ∀ p, shown? source offset = some p ↔
    ∃ before, before <+: source.toList ∧ Text.byteSize before = offset ∧
      p.offset = offset ∧ p.lineColumn = toLex (Text.lineColumn before)
  /-- Wherever a character may start there is a place, and a later one is shown as later. -/
  ordered : ∀ a b, (String.Pos.Raw.mk a).IsValid source → (String.Pos.Raw.mk b).IsValid source →
    a < b → ∃ p q, shown? source a = some p ∧ shown? source b = some q ∧
      p.lineColumn < q.lineColumn
  /-- What is past the end of the source is shown at its end. -/
  clamped : ∀ offset, source.utf8ByteSize < offset →
    ∃ p, shown? source offset = some p ∧ shown? source source.utf8ByteSize = some p
  distinct : ∀ a ≤ source.utf8ByteSize, ∀ b ≤ source.utf8ByteSize, ∀ p q,
    shown? source a = some p → shown? source b = some q → p.lineColumn = q.lineColumn → a = b
  /-- Messages about different offsets of the source differ, whatever else they say. -/
  reported : ∀ path m n (s t : Span), (String.Pos.Raw.mk s.start).IsValid source →
    (String.Pos.Raw.mk t.start).IsValid source →
    messageAt path source (some s) m = messageAt path source (some t) n → s.start = t.start ∧ m = n

/-- The line and the column that are shown for an offset of a source identify the offset. -/
theorem Position.identifyOffsets (source : String) : IdentifyOffsets source where
  counted := by
    intro offset hoffset p
    rw [shown?_eq_some_iff hoffset]
    refine exists_congr fun before => and_congr_right fun _ => and_congr_right fun hsize => ?_
    rw [eq_after_first_iff, hsize]
  ordered := by
    intro a b ha hb hlt
    obtain ⟨-, p, hp⟩ := exists_shown?_of_isValid ha
    obtain ⟨hle, q, hq⟩ := exists_shown?_of_isValid hb
    exact ⟨p, q, hp, hq, lineColumn_lt_of_shown? hlt hle hp hq⟩
  clamped := by
    intro offset hlt
    exact ⟨_, shown?_of_utf8ByteSize_le hlt.le, shown?_of_utf8ByteSize_le (Nat.le_refl _)⟩
  distinct := by
    intro a ha b hb p q hp hq heq
    exact eq_of_lineColumn_eq ha hb hp hq heq
  reported := by
    intro path m n s t hs ht heq
    obtain ⟨hs, p, hp⟩ := exists_shown?_of_isValid hs
    obtain ⟨ht, q, hq⟩ := exists_shown?_of_isValid ht
    obtain ⟨hplace, hmessage⟩ := lineColumn_eq_of_messageAt hp hq heq
    exact ⟨eq_of_lineColumn_eq hs ht hp hq hplace, hmessage⟩

-- A character of two bytes is on the first line, and the two lines after it are empty.
example : ([0, 1, 2, 3, 4, 9].map fun offset =>
    (Position.shown? "é\n\n" offset).map fun p => (p.line, p.column)) =
      [some (1, 1), none, some (1, 2), some (2, 1), some (3, 1), some (3, 1)] := by
  decide +kernel

end LiterateFun
