import LiterateFun.Token.Scan
import Mathlib.Data.List.Forall2

/-!
This module contains the kinds of the tokens of a text, which do not depend on the place of the text
in a source.
-/

namespace LiterateFun

def Symbol.standsAlone (s : Symbol) : Bool :=
  all.all fun t => t = s ∨ ¬s.text.isPrefixOf t.text

theorem Symbol.atStart?_eq_none {c : Char} (h : Token.isWordRest c) (text : List Char) :
    Symbol.atStart? (c :: text) = none := by
  unfold Symbol.atStart?
  rw [List.find?_eq_none]
  intro s _ hs
  cases s <;>
  · simp only [Symbol.text, List.isPrefixOf, Bool.and_eq_true, beq_iff_eq] at hs
    rw [← hs.1] at h
    contradiction

namespace Token

def unplaced (t : Token) : Token :=
  { t with position := .first }

theorem scan_of_gap {text : List Char} (h : (splitGap text).2 = []) (p : Position) :
    scan p text =
      [{ kind := .endOfInput, lexeme := "", position := p.after (splitGap text).1 }] := by
  rw [scan]
  split
  · rfl
  next heq =>
    rw [h] at heq
    cases heq

theorem scan_of_read {text : List Char} {c : Char} {rest : List Char}
    (h : (splitGap text).2 = c :: rest) (p : Position) :
    scan p text =
      { kind := (read c rest).value, lexeme := String.ofList (read c rest).lexeme,
        position := p.after (splitGap text).1 } ::
      scan ((p.after (splitGap text).1).after (read c rest).lexeme) (read c rest).rest := by
  rw [scan]
  split
  next heq =>
    rw [h] at heq
    cases heq
  next heq =>
    rw [h] at heq
    cases heq
    rfl

theorem map_unplaced_scan (p q : Position) (text : List Char) :
    (scan p text).map unplaced = (scan q text).map unplaced := by
  fun_induction scan p text generalizing q with
  | case1 p text p' h =>
    rw [scan_of_gap h]
    rfl
  | case2 p text p' c rest h r ih =>
    rw [scan_of_read h, List.map_cons, List.map_cons, ih]
    rfl

def kinds (text : List Char) : List TokenKind :=
  (scan .first text).map Token.kind

theorem map_kind_eq_of_map_unplaced_eq {ts ts' : List Token}
    (h : ts.map unplaced = ts'.map unplaced) : ts.map Token.kind = ts'.map Token.kind := by
  have hkinds := congrArg (List.map Token.kind) h
  rw [List.map_map, List.map_map] at hkinds
  exact hkinds

theorem map_kind_scan_eq_kinds (p : Position) (text : List Char) :
    (scan p text).map Token.kind = kinds text :=
  map_kind_eq_of_map_unplaced_eq (map_unplaced_scan p .first text)

theorem kinds_of_gap {text : List Char} (h : (splitGap text).2 = []) :
    kinds text = [.endOfInput] := by
  rw [kinds, scan_of_gap h]
  rfl

theorem kinds_of_read {text : List Char} {c : Char} {rest : List Char}
    (h : (splitGap text).2 = c :: rest) :
    kinds text = (read c rest).value :: kinds (read c rest).rest := by
  rw [kinds, scan_of_read h, List.map_cons, map_kind_scan_eq_kinds]

theorem splitGap_blank {c : Char} (h : isBlank c) (text : List Char) :
    (splitGap (c :: text)).2 = (splitGap text).2 := by
  unfold splitGap
  rw [splitGap.go]
  simp [h]

theorem kinds_blank {c : Char} (h : isBlank c) (text : List Char) :
    kinds (c :: text) = kinds text := by
  have hgap := splitGap_blank h text
  cases htext : (splitGap text).2 with
  | nil =>
    rw [htext] at hgap
    rw [kinds_of_gap hgap, kinds_of_gap htext]
  | cons d rest =>
    rw [htext] at hgap
    rw [kinds_of_read hgap, kinds_of_read htext]

theorem splitGap_cons {c : Char} (hblank : ¬isBlank c) (hslash : c ≠ '/') (text : List Char) :
    (splitGap (c :: text)).2 = c :: text := by
  unfold splitGap
  rw [splitGap.go]
  simp [hblank, hslash]

theorem kinds_cons {c : Char} (hblank : ¬isBlank c) (hslash : c ≠ '/') (text : List Char) :
    kinds (c :: text) = (read c text).value :: kinds (read c text).rest :=
  kinds_of_read (splitGap_cons hblank hslash text)

theorem kinds_symbol {s : Symbol} {rest : List Char}
    (h : Symbol.atStart? (s.text ++ rest) = some s)
    (hgap : (splitGap (s.text ++ rest)).2 = s.text ++ rest) :
    kinds (s.text ++ rest) = .symbol s :: kinds rest := by
  obtain ⟨c, cs, hs⟩ := List.exists_cons_of_ne_nil s.text_ne_nil
  have hread : read c (cs ++ rest) = { value := .symbol s, lexeme := s.text, rest := rest } := by
    rw [hs] at h
    unfold read
    rw [← List.cons_append, h]
    simp [hs]
  rw [hs, List.cons_append] at hgap
  rw [hs, List.cons_append, kinds_of_read hgap, hread]

def Scans (text : List Char) (tokens : List TokenKind) : Prop :=
  ∀ rest, kinds (text ++ rest) = tokens ++ kinds rest

theorem scans_nil : Scans [] [] := by
  intro rest
  rfl

theorem Scans.append {text₁ text₂ : List Char} {tokens₁ tokens₂ : List TokenKind}
    (h₁ : Scans text₁ tokens₁) (h₂ : Scans text₂ tokens₂) :
    Scans (text₁ ++ text₂) (tokens₁ ++ tokens₂) := by
  intro rest
  rw [List.append_assoc, List.append_assoc, h₁, h₂]

theorem Scans.blank {c : Char} {text : List Char} {tokens : List TokenKind} (hc : isBlank c)
    (h : Scans text tokens) : Scans (c :: text) tokens := by
  intro rest
  rw [List.cons_append, kinds_blank hc, h]

theorem Scans.symbol (s : Symbol) {text : List Char} {tokens : List TokenKind}
    (hs : s.standsAlone) (h : Scans text tokens) :
    Scans (s.text ++ text) (.symbol s :: tokens) := by
  intro rest
  rw [List.append_assoc, kinds_symbol, h, List.cons_append]
  · revert hs
    cases s <;> first | (intro _; rfl) | (intro hs; contradiction)
  · revert hs
    cases s <;> first | (intro _; rfl) | (intro hs; contradiction)

theorem Scans.symbol_cons (s : Symbol) {c : Char} {text : List Char} {tokens : List TokenKind}
    (hs : s.standsAlone) (hc : s.text = [c]) (h : Scans text tokens) :
    Scans (c :: text) (.symbol s :: tokens) := by
  have hsymbol := Scans.symbol s hs h
  rw [hc] at hsymbol
  exact hsymbol

theorem Scans.symbol_blank (s : Symbol) {text : List Char} {tokens : List TokenKind}
    (h : Scans text tokens) : Scans (s.text ++ ' ' :: text) (.symbol s :: tokens) := by
  intro rest
  rw [List.append_assoc, kinds_symbol, List.cons_append, kinds_blank (by rfl), h, List.cons_append]
  · cases s <;> rfl
  · cases s <;> rfl

def delimits (c : Char) : Bool :=
  ¬isWordRest c ∧ c ≠ '.'

def ScansApart (text : List Char) (tokens : List TokenKind) : Prop :=
  ∀ d rest, delimits d → kinds (text ++ d :: rest) = tokens ++ kinds (d :: rest)

theorem Scans.apart {text : List Char} {tokens : List TokenKind} (h : Scans text tokens) :
    ScansApart text tokens := by
  intro d rest _
  apply h

theorem ScansApart.append {d : Char} {text₁ text₂ : List Char} {tokens₁ tokens₂ : List TokenKind}
    (h₁ : ScansApart text₁ tokens₁) (hd : delimits d) (h₂ : Scans (d :: text₂) tokens₂) :
    Scans (text₁ ++ d :: text₂) (tokens₁ ++ tokens₂) := by
  intro rest
  rw [List.append_assoc, List.append_assoc, List.cons_append, h₁ _ _ hd, ← List.cons_append, h₂]

theorem ScansApart.intercalate {texts : List (List Char)} {tokens : List (List TokenKind)}
    (h : List.Forall₂ ScansApart texts tokens) :
    ScansApart ([',', ' '].intercalate texts) ([.symbol .comma].intercalate tokens) := by
  have hcomma : Scans [',', ' '] [.symbol .comma] := by
    apply Scans.symbol_cons .comma rfl rfl
    apply Scans.blank rfl scans_nil
  induction h with
  | nil => exact scans_nil.apart
  | cons hfirst hothers ih =>
    cases hothers with
    | nil => simpa using hfirst
    | cons hsecond hothers =>
      rw [List.intercalate_cons_cons, List.intercalate_cons_cons]
      intro d rest hd
      rw [List.append_assoc, List.append_assoc, List.cons_append, hfirst _ _ rfl,
        ← List.cons_append, hcomma, ih d rest hd]
      simp only [List.append_assoc]

theorem isWordRest_of_isWordStart {c : Char} (h : isWordStart c) : isWordRest c := by
  simp only [isWordStart, isWordRest, Char.isAlphanum, decide_eq_true_eq, Bool.or_eq_true] at *
  cases h with
  | inl h => exact .inl (.inl h)
  | inr h => exact .inr h

theorem not_isBlank_of_isWordRest {c : Char} (h : isWordRest c) : ¬isBlank c := by
  intro hc
  simp only [isBlank, decide_eq_true_eq] at hc
  obtain rfl | rfl | rfl | rfl := hc <;> contradiction

theorem ne_slash_of_isWordRest {c : Char} (h : isWordRest c) : c ≠ '/' := by
  rintro rfl
  contradiction

theorem kinds_of_isWordRest {c : Char} (h : isWordRest c) (text : List Char) :
    kinds (c :: text) = (read c text).value :: kinds (read c text).rest := by
  exact kinds_cons (not_isBlank_of_isWordRest h) (ne_slash_of_isWordRest h) text

theorem read_quote (text : List Char) :
    read '"' text = ((readString '"' text).map stringKind).precededBy ['"'] := rfl

theorem read_word {c : Char} (h : isWordStart c) (text : List Char) :
    read c text = readWord (c :: text) := by
  have hquote : ¬(c = '"' ∨ c = '\'') := by
    rintro (rfl | rfl) <;> contradiction
  have hdigit : ¬c.isDigit := by
    intro hc
    simp only [isWordStart, decide_eq_true_eq] at h
    cases h with
    | inl h =>
      replace h : (decide (c.val ≥ 'A'.val ∧ c.val ≤ 'Z'.val) ||
        (decide (c.val ≥ 'a'.val) && decide (c.val ≤ 'z'.val))) = true := h
      replace hc : (decide (c.val ≥ '0'.val) && decide (c.val ≤ '9'.val)) = true := hc
      grind
    | inr h =>
      rw [h] at hc
      contradiction
  unfold read
  rw [Symbol.atStart?_eq_none (isWordRest_of_isWordStart h)]
  simp [hquote, hdigit, h]

theorem scansApart_word {c : Char} {word : List Char} (hc : isWordStart c)
    (hword : word.all isWordRest) :
    ScansApart (c :: word) [wordKind (String.ofList (c :: word))] := by
  intro d rest hd
  have hall : ∀ e ∈ c :: word, isWordRest e := by
    rw [List.all_eq_true] at hword
    simpa [isWordRest_of_isWordStart hc] using hword
  have hd : ¬isWordRest d := by
    simp only [delimits, decide_eq_true_eq] at hd
    exact hd.1
  have hread : readWord (c :: word ++ d :: rest) =
      { value := wordKind (String.ofList (c :: word)), lexeme := c :: word,
        rest := d :: rest } := by
    unfold readWord
    rw [List.takeWhile_append_of_pos hall, List.dropWhile_append_of_pos hall]
    simp [hd]
  rw [List.cons_append, kinds_of_isWordRest (isWordRest_of_isWordStart hc), read_word hc,
    ← List.cons_append, hread]
  rfl

theorem isDigit_of_delimits {d : Char} (h : delimits d) (radix : Nat) :
    Numeral.isDigit radix d = false := by
  have hclasses : d.isAlphanum = (d.isUpper || d.isLower || d.isDigit) := rfl
  simp only [delimits, isWordRest, hclasses, Bool.or_eq_true, decide_eq_true_eq, not_or] at h
  simp [Numeral.isDigit, Numeral.digit?, h]

def Delimited (text : List Char) : Prop :=
  ∀ d ∈ text.head?, delimits d

/-- The part of a text that was read is read as the same again where other text comes after it. -/
def Rereads (f : List Char → Reading α) (text after : List Char) : Prop :=
  f ((f text).lexeme ++ after) = { f text with rest := after }

theorem takeWhile_takeWhile_append {p : Char → Bool} {after : List Char}
    (hafter : ∀ d ∈ after.head?, p d = false) (text : List Char) :
    (text.takeWhile p ++ after).takeWhile p = text.takeWhile p ∧
      (text.takeWhile p ++ after).dropWhile p = after := by
  have hall : ∀ c ∈ text.takeWhile p, p c := List.all_eq_true.1 List.all_takeWhile
  rw [List.takeWhile_append_of_pos hall, List.dropWhile_append_of_pos hall]
  cases after with
  | nil => simp
  | cons d after =>
    have hd : p d = false := hafter d rfl
    simp [hd]

theorem rereads_word {after : List Char} (hafter : Delimited after) (text : List Char) :
    Rereads readWord text after := by
  have hstop : ∀ d ∈ after.head?, isWordRest d = false := by
    intro d hd
    have hdelimits := hafter d hd
    simp only [delimits, decide_eq_true_eq] at hdelimits
    exact Bool.eq_false_iff.2 hdelimits.1
  obtain ⟨htake, hdrop⟩ := takeWhile_takeWhile_append hstop text
  simp only [Rereads, readWord, htake, hdrop]

theorem rereads_digits {radix : Nat} {after : List Char}
    (hafter : ∀ d ∈ after.head?, Numeral.isDigit radix d = false) (text : List Char) :
    Rereads (readDigits radix) text after := by
  obtain ⟨htake, hdrop⟩ := takeWhile_takeWhile_append hafter text
  simp only [Rereads, readDigits, htake, hdrop]

theorem readFraction_of_delimited (radix : Nat) {text : List Char} (h : Delimited text) :
    readFraction radix text = { value := [], lexeme := [], rest := text } := by
  unfold readFraction
  split
  next c text =>
    have hpoint := h '.' rfl
    contradiction
  next => rfl

theorem rereads_fraction (radix : Nat) {after : List Char} (hafter : Delimited after)
    (text : List Char) : Rereads (readFraction radix) text after := by
  unfold Rereads
  rw [readFraction.eq_def radix text]
  split
  next c text =>
    split
    next hc =>
      have hdigits : Rereads (readDigits radix) (c :: text) after :=
        rereads_digits (fun d hd => isDigit_of_delimits (hafter d hd) radix) _
      have hlexeme : (readDigits radix (c :: text)).lexeme =
          c :: (readDigits radix text).lexeme := List.takeWhile_cons_of_pos hc
      rw [Rereads, hlexeme, List.cons_append] at hdigits
      simp only [Reading.precededBy, hlexeme, List.cons_append, List.nil_append, readFraction, hc,
        if_true, hdigits]
    next => exact readFraction_of_delimited radix hafter
  next => exact readFraction_of_delimited radix hafter

theorem head?_lexeme_readFraction (radix : Nat) (text : List Char) :
    ∀ c ∈ (readFraction radix text).lexeme.head?, c = '.' := by
  intro c hc
  unfold readFraction at hc
  split at hc
  · split at hc
    · cases hc
      rfl
    · cases hc
  · cases hc

theorem isDigit_point (radix : Nat) : Numeral.isDigit radix '.' = false := by
  have hdigit : '.'.isDigit = false := rfl
  have hlower : '.'.isLower = false := rfl
  have hupper : '.'.isUpper = false := rfl
  simp [Numeral.isDigit, Numeral.digit?, hdigit, hlower, hupper]

theorem rereads_numeral (radix : Nat) {after : List Char} (hafter : Delimited after)
    (text : List Char) : Rereads (readNumeral radix) text after := by
  have hfraction := rereads_fraction radix hafter (readDigits radix text).rest
  have hdigits : Rereads (readDigits radix) text
      ((readFraction radix (readDigits radix text).rest).lexeme ++ after) := by
    apply rereads_digits
    intro d hd
    rw [List.head?_append] at hd
    cases hhead : (readFraction radix (readDigits radix text).rest).lexeme.head? with
    | none =>
      rw [hhead, Option.none_or] at hd
      exact isDigit_of_delimits (hafter d hd) radix
    | some c =>
      rw [hhead] at hd
      cases hd
      rw [head?_lexeme_readFraction radix _ _ hhead]
      exact isDigit_point radix
  unfold Rereads at hfraction hdigits ⊢
  simp only [readNumeral, Reading.precededBy, Reading.map, List.append_assoc, hdigits, hfraction]

def readDecimal (text : List Char) : Reading TokenKind :=
  (readNumeral 10 text).map (numberKind ·.value)

theorem readNumber_eq_readDecimal {text : List Char}
    (h : ∀ mark digits, text = '0' :: mark :: digits → Numeral.radix? mark = none) :
    readNumber text = readDecimal text := by
  unfold readNumber
  split
  next mark digits =>
    rw [h mark digits rfl]
    rfl
  next => rfl

theorem radix?_eq_none {c : Char} (h : Numeral.isDigit 10 c ∨ c = '.' ∨ delimits c) :
    Numeral.radix? c = none := by
  unfold Numeral.radix?
  split <;> first | rfl | (revert h; decide)

theorem mem_lexeme_readNumeral {radix : Nat} {text : List Char} {c : Char}
    (h : c ∈ (readNumeral radix text).lexeme) : Numeral.isDigit radix c ∨ c = '.' := by
  have htake : ∀ text, ∀ c ∈ (readDigits radix text).lexeme, Numeral.isDigit radix c := fun text =>
    List.all_eq_true.1 List.all_takeWhile
  obtain hc | hc := List.mem_append.1 h
  · exact .inl (htake _ c hc)
  · unfold readFraction at hc
    split at hc
    · split at hc
      · obtain rfl | hc := List.mem_cons.1 hc
        · exact .inr rfl
        · exact .inl (htake _ c hc)
      · cases hc
    · cases hc

theorem rereads_decimal {after : List Char} (hafter : Delimited after) {text : List Char}
    (h : readNumber text = readDecimal text) : Rereads readNumber text after := by
  have hnumeral := rereads_numeral 10 hafter text
  -- After the first digit comes another one, the point or a delimiter, none of which is a mark.
  have hmark : ∀ mark digits, (readNumeral 10 text).lexeme ++ after = '0' :: mark :: digits →
      Numeral.radix? mark = none := by
    intro mark digits heq
    apply radix?_eq_none
    cases hlexeme : (readNumeral 10 text).lexeme with
    | nil =>
      rw [hlexeme, List.nil_append] at heq
      have hzero := hafter '0' (by rw [heq]; rfl)
      contradiction
    | cons c lexeme =>
      rw [hlexeme, List.cons_append] at heq
      cases lexeme with
      | nil =>
        rw [List.nil_append] at heq
        have hdelimits := hafter mark (by rw [(List.cons.inj heq).2]; rfl)
        exact .inr (.inr hdelimits)
      | cons d lexeme =>
        have hmem : mark ∈ (readNumeral 10 text).lexeme := by
          rw [hlexeme, (List.cons.inj (List.cons.inj heq).2).1]
          simp
        exact (mem_lexeme_readNumeral hmem).imp_right .inl
  have hdecimal := readNumber_eq_readDecimal hmark
  rw [Rereads, h]
  refine hdecimal.trans ?_
  rw [readDecimal, hnumeral]
  rfl

theorem rereads_marked {after : List Char} (hafter : Delimited after) {mark : Char} {radix : Nat}
    (hradix : Numeral.radix? mark = some radix) (digits : List Char) :
    Rereads readNumber ('0' :: mark :: digits) after := by
  have hread (digits : List Char) : readNumber ('0' :: mark :: digits) =
      if digits.head?.any (Numeral.isDigit radix) then
        ((readNumeral radix digits).map (numberKind ·.value)).precededBy ['0', mark]
      else
        { value := .invalid .invalidNumber, lexeme := ['0', mark], rest := digits } := by
    simp only [readNumber, hradix]
  rw [Rereads, hread digits]
  split
  next hdigits =>
    have hfirst : ((readNumeral radix digits).lexeme ++ after).head?.any
        (Numeral.isDigit radix) := by
      cases digits with
      | nil => cases hdigits
      | cons d digits =>
        have hd : Numeral.isDigit radix d := hdigits
        simp [readNumeral, Reading.precededBy, readDigits, hd]
    have hnumeral := rereads_numeral radix hafter digits
    rw [Rereads] at hnumeral
    simp only [Reading.precededBy, Reading.map, List.cons_append, List.nil_append, hread, hfirst,
      if_true, hnumeral]
  next =>
    have hfirst : ¬after.head?.any (Numeral.isDigit radix) := by
      intro h
      obtain ⟨d, hd, hdigit⟩ := (Option.any_eq_true _ _).1 h
      rw [isDigit_of_delimits (hafter d hd)] at hdigit
      cases hdigit
    simp only [List.cons_append, List.nil_append, hread, hfirst]
    rfl

theorem rereads_number {after : List Char} (hafter : Delimited after) (text : List Char) :
    Rereads readNumber text after := by
  by_cases hmark : ∃ mark digits radix,
      text = '0' :: mark :: digits ∧ Numeral.radix? mark = some radix
  · obtain ⟨mark, digits, radix, rfl, hradix⟩ := hmark
    exact rereads_marked hafter hradix digits
  · apply rereads_decimal hafter
    apply readNumber_eq_readDecimal
    intro mark digits heq
    cases hradix : Numeral.radix? mark with
    | none => rfl
    | some radix => exact absurd ⟨mark, digits, radix, heq, hradix⟩ hmark

theorem kinds_ne_nil (text : List Char) : kinds text ≠ [] := by
  cases h : (splitGap text).2 with
  | nil => simp [kinds_of_gap h]
  | cons c rest => simp [kinds_of_read h]

theorem isWordRest_of_isDigit {c : Char} (h : c.isDigit) : isWordRest c := by
  simp [isWordRest, Char.isAlphanum, h]

theorem not_isWordStart_of_isDigit {c : Char} (h : c.isDigit) : ¬isWordStart c := by
  have hdigit : c.isDigit = (decide (c.val ≥ '0'.val) && decide (c.val ≤ '9'.val)) := rfl
  have halpha : c.isAlpha = (decide (c.val ≥ 'A'.val ∧ c.val ≤ 'Z'.val) ||
    (decide (c.val ≥ 'a'.val) && decide (c.val ≤ 'z'.val))) := rfl
  intro hstart
  obtain hstart | rfl := of_decide_eq_true hstart
  · grind
  · contradiction

theorem read_digit {c : Char} (h : c.isDigit) (text : List Char) :
    read c text = readNumber (c :: text) := by
  have hquote : ¬(c = '"' ∨ c = '\'') := by
    rintro (rfl | rfl) <;> contradiction
  unfold read
  rw [Symbol.atStart?_eq_none (isWordRest_of_isDigit h)]
  simp [hquote, h]

theorem readNumber_cases (text : List Char) :
    (∃ x, (readNumber text).value = .number x) ∨
      ∃ cause, (readNumber text).value = .invalid cause := by
  have hkind (x : Number) : (∃ y, numberKind x = .number y) ∨
      ∃ cause, numberKind x = .invalid cause := by
    unfold numberKind
    split
    · exact .inl ⟨x, rfl⟩
    · exact .inr ⟨_, rfl⟩
  unfold readNumber
  split
  · split
    · split
      · apply hkind
      · exact .inr ⟨_, rfl⟩
    · apply hkind
  · apply hkind

theorem read_ne_endOfInput (c : Char) (text : List Char) : (read c text).value ≠ .endOfInput := by
  intro h
  unfold read at h
  split at h
  · cases h
  · split at h
    · simp only [Reading.precededBy, Reading.map, stringKind] at h
      split at h <;> cases h
    · split at h
      · rcases readNumber_cases (c :: text) with ⟨_, hnumber⟩ | ⟨_, hnumber⟩ <;>
          rw [hnumber] at h <;> cases h
      · split at h
        · simp only [readWord, wordKind] at h
          split at h <;> cases h
        · cases h

theorem isDigit_of_read_number {c : Char} {text : List Char} {x : Number}
    (h : (read c text).value = .number x) : c.isDigit := by
  unfold read at h
  split at h
  · cases h
  · split at h
    · simp only [Reading.precededBy, Reading.map, stringKind] at h
      split at h <;> cases h
    · split at h
      · assumption
      · split at h
        · simp only [readWord, wordKind] at h
          split at h <;> cases h
        · cases h

theorem scansApart_number {text : List Char} {x : Number}
    (hgap : ∀ c ∈ text, ¬isBlank c ∧ c ≠ '/') (h : kinds text = [.number x, .endOfInput]) :
    ScansApart text [.number x] := by
  cases text with
  | nil =>
    rw [kinds_of_gap rfl] at h
    cases h
  | cons c text =>
    obtain ⟨hblank, hslash⟩ := hgap c (by simp)
    rw [kinds_cons hblank hslash] at h
    obtain ⟨hvalue, hkinds⟩ := List.cons.inj h
    have hdigit := isDigit_of_read_number hvalue
    -- Anything that is left would be another token in front of the end.
    have hrest : (read c text).rest = [] := by
      cases hread : (read c text).rest with
      | nil => rfl
      | cons e rest =>
        have he : e ∈ c :: text := by
          rw [← read_splits c text, hread]
          simp
        obtain ⟨hblank, hslash⟩ := hgap e he
        rw [hread, kinds_cons hblank hslash] at hkinds
        exact absurd (List.cons.inj hkinds).2 (kinds_ne_nil _)
    rw [read_digit hdigit] at hvalue hrest
    have hlexeme : (readNumber (c :: text)).lexeme = c :: text := by
      have hsplits := readNumber_splits (c :: text)
      rw [Reading.Splits, hrest, List.append_nil] at hsplits
      exact hsplits
    intro d rest hd
    have hreread : Rereads readNumber (c :: text) (d :: rest) := by
      apply rereads_number
      intro e he
      cases he
      exact hd
    rw [Rereads, hlexeme] at hreread
    rw [List.cons_append, kinds_cons hblank hslash, read_digit hdigit, ← List.cons_append, hreread,
      hvalue]
    rfl

end Token

end LiterateFun
