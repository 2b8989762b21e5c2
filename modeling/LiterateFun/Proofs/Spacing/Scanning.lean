import LiterateFun.Proofs.Scanning

/-!
This module contains the spacing of a source. The blanks and comments between its tokens can be
replaced by others: each token is read as the same again where a blank or a comment follows it.
-/

namespace LiterateFun

namespace Token

/-- Blanks and comments. A comment goes on up to a line feed, or where it may, up to the end. -/
inductive IsFillerTo (isEnd : Prop) : List Char → Prop
  | nil : IsFillerTo isEnd []
  | blank {c : Char} {text : List Char} (hc : isBlank c) (h : IsFillerTo isEnd text) :
    IsFillerTo isEnd (c :: text)
  | comment {content text : List Char} (hcontent : '\n' ∉ content) (h : IsFillerTo isEnd text) :
    IsFillerTo isEnd ('/' :: '/' :: (content ++ '\n' :: text))
  | lastComment {content : List Char} (hcontent : '\n' ∉ content) (hend : isEnd) :
    IsFillerTo isEnd ('/' :: '/' :: content)

abbrev IsFiller : List Char → Prop :=
  IsFillerTo False

def StartsBlank (text : List Char) : Prop :=
  ∀ c ∈ text.head?, isBlank c

/--
What may follow a lexeme. A slash and the comment right after it would be one comment, so that a
blank has to come between them.
-/
structure IsGap (lexeme gap : List Char) : Prop where
  filler : IsFiller gap
  apart : lexeme = ['/'] → StartsBlank gap

/-- The lexemes in their order, with gaps between them. A gap may also follow the last one. -/
inductive Separated : List (List Char) → List Char → Prop
  | nil : Separated [] []
  | last {lexeme gap : List Char} (hgap : IsGap lexeme gap) : Separated [lexeme] (lexeme ++ gap)
  | cons {lexeme gap text : List Char} {lexemes : List (List Char)} (hgap : IsGap lexeme gap)
      (hne : gap ≠ []) (h : Separated lexemes text) :
      Separated (lexeme :: lexemes) (lexeme ++ (gap ++ text))

def Spaced (lexemes : List (List Char)) (text : List Char) : Prop :=
  ∃ leading body, IsFiller leading ∧ Separated lexemes body ∧ text = leading ++ body

theorem isGap_blank {c : Char} {text : List Char} (hc : isBlank c) (h : IsFiller text)
    (lexeme : List Char) : IsGap lexeme (c :: text) := by
  refine ⟨.blank hc h, fun _ d hd => ?_⟩
  cases hd
  exact hc

def StartsFiller (text : List Char) : Prop :=
  ∀ c ∈ text.head?, isBlank c ∨ c = '/'

theorem IsFiller.startsFiller {text : List Char} (h : IsFiller text) : StartsFiller text := by
  intro d hd
  cases h with
  | nil => cases hd
  | blank hc _ =>
    cases hd
    exact .inl hc
  | comment _ _ =>
    cases hd
    exact .inr rfl
  | lastComment _ hend => cases hend

theorem Spaced.isFiller {text : List Char} (h : Spaced [] text) : IsFiller text := by
  obtain ⟨leading, body, hleading, hbody, rfl⟩ := h
  cases hbody
  rw [List.append_nil]
  exact hleading

theorem Spaced.exists_of_cons {lexeme text : List Char} {lexemes : List (List Char)}
    (h : Spaced (lexeme :: lexemes) text) :
    ∃ leading after, IsFiller leading ∧ text = leading ++ (lexeme ++ after) ∧
      StartsFiller after ∧ (lexeme = ['/'] → StartsBlank after) ∧ Spaced lexemes after := by
  obtain ⟨leading, body, hleading, hbody, rfl⟩ := h
  cases hbody with
  | @last _ gap hgap =>
    have hspaced : Spaced [] gap := ⟨gap, [], hgap.filler, .nil, (List.append_nil gap).symm⟩
    exact ⟨leading, gap, hleading, rfl, hgap.filler.startsFiller, hgap.apart, hspaced⟩
  | @cons _ gap rest _ hgap hne hbody =>
    have hhead : (gap ++ rest).head? = gap.head? := List.head?_append_of_ne_nil _ hne
    have hstarts : StartsFiller (gap ++ rest) := by
      rw [StartsFiller, hhead]
      exact hgap.filler.startsFiller
    have hapart : lexeme = ['/'] → StartsBlank (gap ++ rest) := by
      rw [StartsBlank, hhead]
      exact hgap.apart
    exact ⟨leading, _, hleading, rfl, hstarts, hapart, gap, rest, hgap.filler, hbody, rfl⟩

theorem splitGap_comment {content : List Char} (h : '\n' ∉ content) (text : List Char) :
    (splitGap.go true (content ++ '\n' :: text)).2 = (splitGap text).2 := by
  induction content with
  | nil => simp [splitGap.go, splitGap]
  | cons c content ih =>
    obtain ⟨hc, hcontent⟩ := not_or.1 (List.mem_cons.not.1 h)
    have hc : c ≠ '\n' := fun heq => hc heq.symm
    simp [splitGap.go, hc, ih hcontent]

theorem IsFiller.splitGap_append {filler : List Char} (h : IsFiller filler) (text : List Char) :
    (splitGap (filler ++ text)).2 = (splitGap text).2 := by
  induction h with
  | nil => rfl
  | blank hc _ ih => rw [List.cons_append, splitGap_blank hc, ih]
  | @comment content filler hcontent _ ih =>
    have hslash : '\n' ∉ '/' :: content := by simp [hcontent]
    have hcomment := splitGap_comment hslash (filler ++ text)
    rw [List.cons_append] at hcomment
    rw [List.cons_append, List.cons_append, List.append_assoc, List.cons_append, ← ih, ← hcomment,
      splitGap, splitGap.go]
    simp [isBlank]
  | lastComment _ hend => cases hend

theorem IsFillerTo.mono {isEnd isEnd' : Prop} (hend : isEnd → isEnd') {text : List Char}
    (h : IsFillerTo isEnd text) : IsFillerTo isEnd' text := by
  induction h with
  | nil => exact .nil
  | blank hc _ ih => exact .blank hc ih
  | comment hcontent _ ih => exact .comment hcontent ih
  | lastComment hcontent hisEnd => exact .lastComment hcontent (hend hisEnd)

theorem IsFillerTo.isFiller {isEnd : Prop} {text : List Char} (h : IsFillerTo isEnd text)
    (hend : ¬isEnd) : IsFiller text :=
  h.mono hend

def EndsComment (isEnd : Prop) (text : List Char) : Prop :=
  (∃ content filler, text = content ++ '\n' :: filler ∧ '\n' ∉ content ∧ IsFillerTo isEnd filler) ∨
    '\n' ∉ text ∧ isEnd

theorem EndsComment.cons {isEnd : Prop} {c : Char} {text : List Char} (hc : c ≠ '\n')
    (h : EndsComment isEnd text) : EndsComment isEnd (c :: text) := by
  have hnot {content : List Char} (hcontent : '\n' ∉ content) : '\n' ∉ c :: content :=
    List.not_mem_cons_of_ne_of_not_mem (Ne.symm hc) hcontent
  rcases h with ⟨content, filler, rfl, hcontent, hfiller⟩ | ⟨htext, hend⟩
  · exact .inl ⟨c :: content, filler, rfl, hnot hcontent, hfiller⟩
  · exact .inr ⟨hnot htext, hend⟩

theorem EndsComment.isFillerTo {isEnd : Prop} {text : List Char}
    (h : EndsComment isEnd ('/' :: text)) : IsFillerTo isEnd ('/' :: '/' :: text) := by
  rcases h with ⟨content, filler, htext, hcontent, hfiller⟩ | ⟨htext, hend⟩
  · cases content with
    | nil => cases htext
    | cons c content =>
      obtain ⟨rfl, rfl⟩ := List.cons.inj htext
      exact .comment (List.not_mem_of_not_mem_cons hcontent) hfiller
  · exact .lastComment (List.not_mem_of_not_mem_cons htext) hend

theorem isFillerTo_of_go (text : List Char) :
    IsFillerTo ((splitGap.go false text).2 = []) (splitGap.go false text).1 ∧
      EndsComment ((splitGap.go true text).2 = []) (splitGap.go true text).1 := by
  induction text with
  | nil => exact ⟨.nil, .inr ⟨List.not_mem_nil, rfl⟩⟩
  | cons c text ih =>
    constructor
    · rw [splitGap.go, if_neg Bool.false_ne_true]
      split
      next hblank => exact .blank hblank ih.1
      next =>
        split
        next hslashes =>
          obtain ⟨rfl, hhead⟩ := hslashes
          obtain ⟨rest, rfl⟩ := List.head?_eq_some_iff.1 hhead
          have hcomment := ih.2
          rw [splitGap.go, if_pos rfl] at hcomment ⊢
          exact hcomment.isFillerTo
        next => exact .nil
    · rw [splitGap.go, if_pos rfl]
      by_cases hc : c = '\n'
      · simp only [hc, ne_eq, not_true_eq_false, decide_false]
        exact .inl ⟨[], _, rfl, List.not_mem_nil, ih.1⟩
      · simp only [hc, ne_eq, not_false_eq_true, decide_true]
        exact ih.2.cons hc

theorem isFillerTo_splitGap (text : List Char) :
    IsFillerTo ((splitGap text).2 = []) (splitGap text).1 :=
  (isFillerTo_of_go text).1

theorem isFiller_splitGap {text : List Char} (h : (splitGap text).2 ≠ []) :
    IsFiller (splitGap text).1 :=
  (isFillerTo_splitGap text).isFiller h

def StartsToken (c : Char) (text : List Char) : Prop :=
  ¬isBlank c ∧ ¬(c = '/' ∧ text.head? = some '/')

theorem startsToken_of_go {inComment : Bool} {text : List Char} {c : Char} {rest : List Char}
    (h : (splitGap.go inComment text).2 = c :: rest) : StartsToken c rest := by
  induction text generalizing inComment with
  | nil => cases h
  | cons d text ih =>
    rw [splitGap.go] at h
    split at h
    · exact ih h
    · split at h
      · exact ih h
      · split at h
        · exact ih h
        next hblank hcomment =>
          cases h
          exact ⟨hblank, hcomment⟩

theorem StartsToken.splitGap {c : Char} {text : List Char} (h : StartsToken c text) :
    (splitGap (c :: text)).2 = c :: text := by
  rw [Token.splitGap, splitGap.go, if_neg Bool.false_ne_true, if_neg h.1, if_neg h.2]

theorem exists_ok_of_map_eq_ok {f : List Char → List Char}
    {r : Except LexicalError (List Char)} {value : List Char} (h : r.map f = .ok value) :
    ∃ u, r = .ok u := by
  cases r with
  | error e => cases h
  | ok u => exact ⟨u, rfl⟩

theorem rereads_string (quote : Char) {text value : List Char}
    (h : (readString quote text).value = .ok value) (after : List Char) :
    Rereads (readString quote) text after := by
  unfold Rereads
  fun_induction readString quote text generalizing value with
  | case1 => cases h
  | case2 =>
    rw [readString.eq_def]
    simp
  | case3 => cases h
  | case4 d text e hescape hquote ih =>
    obtain ⟨_, hvalue⟩ := exists_ok_of_map_eq_ok h
    simp only [Reading.precededBy, Reading.map, List.cons_append, List.nil_append, readString,
      if_neg hquote, if_true, hescape, ih hvalue]
  | case5 => cases h
  | case6 c text hquote hescape ih =>
    obtain ⟨_, hvalue⟩ := exists_ok_of_map_eq_ok h
    rw [readString.eq_def]
    simp [Reading.precededBy, Reading.map, hquote, hescape, ih hvalue]

theorem Symbol.atStart?_append (s : Symbol) {after : List Char} (hafter : StartsFiller after) :
    Symbol.atStart? (s.text ++ after) = some s := by
  cases after with
  | nil => cases s <;> rfl
  | cons d after =>
    have hd := hafter d rfl
    simp only [isBlank, decide_eq_true_eq] at hd
    obtain (rfl | rfl | rfl | rfl) | rfl := hd <;> cases s <;> rfl

theorem StartsFiller.delimited {text : List Char} (h : StartsFiller text) : Delimited text := by
  intro d hd
  have hstart := h d hd
  simp only [isBlank, decide_eq_true_eq] at hstart
  obtain (rfl | rfl | rfl | rfl) | rfl := hstart <;> rfl

theorem read_symbol {c : Char} {text : List Char} {s : Symbol}
    (h : Symbol.atStart? (c :: text) = some s) :
    read c text =
      { value := .symbol s, lexeme := s.text, rest := (c :: text).drop s.text.length } := by
  rw [read, h]

theorem read_string {c : Char} (h : c = '"' ∨ c = '\'') (text : List Char) :
    read c text = ((readString c text).map stringKind).precededBy [c] := by
  obtain rfl | rfl := h <;> rfl

theorem exists_lexeme_read (c : Char) (text : List Char) :
    ∃ cs, (read c text).lexeme = c :: cs ∧ cs ++ (read c text).rest = text := by
  have hsplits := read_splits c text
  rw [Reading.Splits] at hsplits
  cases hlexeme : (read c text).lexeme with
  | nil => exact absurd hlexeme (read_lexeme_ne_nil c text)
  | cons d cs =>
    rw [hlexeme, List.cons_append] at hsplits
    obtain ⟨rfl, hrest⟩ := List.cons.inj hsplits
    exact ⟨cs, rfl, hrest⟩

theorem read_again {c : Char} {text cs after : List Char}
    (hvalid : (read c text).value.class ≠ .invalid) (hlexeme : (read c text).lexeme = c :: cs)
    (hafter : StartsFiller after) :
    read c (cs ++ after) = { read c text with rest := after } := by
  cases hsymbol : Symbol.atStart? (c :: text) with
  | some s =>
    rw [read_symbol hsymbol] at hlexeme ⊢
    replace hlexeme : s.text = c :: cs := hlexeme
    have hagain := Symbol.atStart?_append s hafter
    rw [hlexeme, List.cons_append] at hagain
    rw [read_symbol hagain, ← List.cons_append, ← hlexeme, List.drop_left]
  | none =>
    by_cases hquote : c = '"' ∨ c = '\''
    · have hok : ∃ value, (readString c text).value = .ok value := by
        rw [read_string hquote] at hvalid
        cases hvalue : (readString c text).value with
        | ok value => exact ⟨value, rfl⟩
        | error e => exact absurd (congrArg (fun value => (stringKind value).class) hvalue) hvalid
      obtain ⟨value, hvalue⟩ := hok
      have hagain := rereads_string c hvalue after
      rw [read_string hquote] at hlexeme
      have hcs : (readString c text).lexeme = cs := (List.cons.inj hlexeme).2
      rw [Rereads, hcs] at hagain
      rw [read_string hquote, read_string hquote, hagain]
      rfl
    · by_cases hdigit : c.isDigit
      · have hagain := rereads_number hafter.delimited (c :: text)
        rw [read_digit hdigit] at hlexeme
        rw [Rereads, hlexeme] at hagain
        rw [read_digit hdigit, read_digit hdigit]
        exact hagain
      · by_cases hword : isWordStart c
        · have hagain := rereads_word hafter.delimited (c :: text)
          rw [read_word hword] at hlexeme
          rw [Rereads, hlexeme] at hagain
          rw [read_word hword, read_word hword]
          exact hagain
        · have hinvalid : (read c text).value = .invalid (.unexpectedCharacter c) := by
            simp [read, hsymbol, hquote, hdigit, hword]
          exact absurd (congrArg TokenKind.class hinvalid) hvalid

def lexemes (ts : List Token) : List (List Char) :=
  ts.dropLast.map fun t => t.lexeme.toList

theorem scan_ne_nil (p : Position) (text : List Char) : scan p text ≠ [] := by
  rw [scan]
  split <;> nofun

theorem StartsToken.before_gap {c : Char} {cs text after : List Char}
    (h : StartsToken c (cs ++ text)) (hapart : c :: cs = ['/'] → StartsBlank after) :
    StartsToken c (cs ++ after) := by
  refine ⟨h.1, ?_⟩
  rintro ⟨rfl, hhead⟩
  cases cs with
  | nil =>
    have hslash := hapart rfl '/' hhead
    contradiction
  | cons d cs => exact h.2 ⟨rfl, hhead⟩

theorem map_unplaced_scan_of_spaced (p q : Position) {text other : List Char} :
    (∀ t ∈ scan p text, t.kind.class ≠ .invalid) → Spaced (lexemes (scan p text)) other →
      (scan q other).map unplaced = (scan p text).map unplaced := by
  fun_induction scan p text generalizing other q
  case case1 =>
    intro _ h
    have hother := h.isFiller.splitGap_append []
    rw [List.append_nil] at hother
    rw [scan_of_gap hother]
    rfl
  case case2 p text p' c rest hgap r ih =>
    intro hvalid h
    obtain ⟨hread, hvalid⟩ := List.forall_mem_cons.1 hvalid
    obtain ⟨cs, hlexeme, hrest⟩ := exists_lexeme_read c rest
    rw [lexemes, List.dropLast_cons_of_ne_nil (scan_ne_nil _ _), List.map_cons,
      String.toList_ofList] at h
    obtain ⟨leading, after, hleading, rfl, hafter, hapart, hspaced⟩ := h.exists_of_cons
    have hstart : StartsToken c (cs ++ after) := by
      have hstarts := startsToken_of_go hgap
      rw [← hrest] at hstarts
      rw [hlexeme] at hapart
      exact hstarts.before_gap hapart
    have hother : (splitGap (leading ++ (r.lexeme ++ after))).2 = c :: (cs ++ after) := by
      rw [hleading.splitGap_append, hlexeme, List.cons_append, hstart.splitGap]
    rw [scan_of_read hother, read_again hread hlexeme hafter, List.map_cons, List.map_cons,
      ih _ hvalid hspaced]
    rfl

end Token

end LiterateFun
