import LiterateFun.Proofs.Scanning

/-!
This module contains the tokens of texts up to a closing brace. Where the brace is a token of its
own, what comes after it has no influence on the tokens before it. A text whose tokens are known
whatever comes after it therefore ends with its last token if that is a closing brace.
-/

namespace LiterateFun

namespace Token

def StopsAtBrace (f : List Char → Reading α) (text : List Char) : Prop :=
  ∀ after, f (text ++ '}' :: after) = { f text with rest := (f text).rest ++ '}' :: after }

theorem takeWhile_brace {p : Char → Bool} (hp : p '}' = false) (text after : List Char) :
    (text ++ '}' :: after).takeWhile p = text.takeWhile p ∧
      (text ++ '}' :: after).dropWhile p = text.dropWhile p ++ '}' :: after := by
  induction text with
  | nil => simp [hp]
  | cons c text ih =>
    rw [List.cons_append, List.takeWhile_cons, List.dropWhile_cons, List.takeWhile_cons,
      List.dropWhile_cons]
    cases hc : p c with
    | true => simp [ih]
    | false => simp

theorem isDigit_brace (radix : Nat) : Numeral.isDigit radix '}' = false :=
  isDigit_of_delimits rfl radix

theorem stopsAtBrace_word (text : List Char) : StopsAtBrace readWord text := by
  intro after
  obtain ⟨htake, hdrop⟩ := takeWhile_brace (p := isWordRest) rfl text after
  simp only [readWord, htake, hdrop]

theorem stopsAtBrace_digits (radix : Nat) (text : List Char) :
    StopsAtBrace (readDigits radix) text := by
  intro after
  obtain ⟨htake, hdrop⟩ := takeWhile_brace (isDigit_brace radix) text after
  simp only [readDigits, htake, hdrop]

theorem stopsAtBrace_fraction (radix : Nat) (text : List Char) :
    StopsAtBrace (readFraction radix) text := by
  intro after
  have hplain {c : Char} (hc : c ≠ '.') (text : List Char) :
      readFraction radix (c :: text) = { value := [], lexeme := [], rest := c :: text } := by
    unfold readFraction
    split
    next heq => exact absurd (List.cons.inj heq).1 hc
    next => rfl
  match text with
  | [] => exact hplain (by decide) after
  | [c] =>
    by_cases hc : c = '.'
    · rw [hc]
      simp [readFraction, isDigit_brace]
    · rw [List.singleton_append, hplain hc, hplain hc]
      rfl
  | c :: d :: text =>
    by_cases hc : c = '.'
    · have hdigits := stopsAtBrace_digits radix (d :: text) after
      rw [List.cons_append] at hdigits
      rw [hc, List.cons_append, List.cons_append, readFraction, readFraction, hdigits]
      split
      · rfl
      · rfl
    · rw [List.cons_append, hplain hc, hplain hc]
      rfl

theorem stopsAtBrace_numeral (radix : Nat) (text : List Char) :
    StopsAtBrace (readNumeral radix) text := by
  intro after
  simp only [readNumeral, stopsAtBrace_digits radix text after,
    stopsAtBrace_fraction radix (readDigits radix text).rest after]
  rfl

theorem stopsAtBrace_decimal (text : List Char) : StopsAtBrace readDecimal text := by
  intro after
  simp only [readDecimal, stopsAtBrace_numeral 10 text after]
  rfl

theorem stopsAtBrace_number (text : List Char) : StopsAtBrace readNumber text := by
  intro after
  by_cases hmark : ∃ mark digits radix,
      text = '0' :: mark :: digits ∧ Numeral.radix? mark = some radix
  · obtain ⟨mark, digits, radix, rfl, hradix⟩ := hmark
    have hnumeral := stopsAtBrace_numeral radix digits after
    have hhead : (digits ++ '}' :: after).head?.any (Numeral.isDigit radix) =
        digits.head?.any (Numeral.isDigit radix) := by
      cases digits with
      | nil => exact isDigit_brace radix
      | cons => rfl
    simp only [List.cons_append, readNumber, hradix, hhead, hnumeral]
    split
    · rfl
    · rfl
  · have hnone {mark : Char} {digits : List Char} (htext : text = '0' :: mark :: digits) :
        Numeral.radix? mark = none := by
      apply Option.eq_none_iff_forall_ne_some.2
      intro radix hradix
      exact hmark ⟨mark, digits, radix, htext, hradix⟩
    rw [readNumber_eq_readDecimal, readNumber_eq_readDecimal fun _ _ => hnone]
    · exact stopsAtBrace_decimal text after
    · intro mark digits heq
      cases text with
      | nil => cases heq
      | cons c text =>
        cases text with
        | nil =>
          cases heq
          rfl
        | cons d text =>
          cases heq
          exact hnone rfl

theorem stopsAtBrace_symbol (c : Char) (text after : List Char) :
    Symbol.atStart? (c :: (text ++ '}' :: after)) = Symbol.atStart? (c :: text) := by
  have hsame (s : Symbol) :
      s.text.isPrefixOf (c :: (text ++ '}' :: after)) = s.text.isPrefixOf (c :: text) := by
    cases text with
    | nil => cases s <;> simp [Symbol.text, List.isPrefixOf]
    | cons d text => cases s <;> simp [Symbol.text, List.isPrefixOf]
  simp only [Symbol.atStart?, hsame]

def Plain (text : List Char) : Prop :=
  ∀ c ∈ text, c ∉ ['\n', '"', '\'', '\\']

inductive BraceAfterString (quote : Char) (text : List Char) : Prop
  | outside (h : StopsAtBrace (readString quote) text)
  /-- It belongs to the string, which goes on after it. -/
  | inside (h : ∀ after, Plain after →
      (readString quote (text ++ '}' :: after)).value = .error .unterminatedString ∧
        (readString quote (text ++ '}' :: after)).rest = [])
      (hrest : ∀ after, (readString quote (text ++ '}' :: after)).rest.length ≤ after.length)
  /-- It ends the string, because a string must not have a backslash before it. -/
  | escaped (h : ∀ after,
      (readString quote (text ++ '}' :: after)).value = .error (.unexpectedEscape '}') ∧
        (readString quote (text ++ '}' :: after)).rest = after)

theorem readString_plain {quote : Char} (hquote : quote = '"' ∨ quote = '\'') {text : List Char}
    (h : Plain text) :
    (readString quote text).value = .error .unterminatedString ∧
      (readString quote text).rest = [] := by
  induction text with
  | nil => exact ⟨rfl, rfl⟩
  | cons c text ih =>
    obtain ⟨hc, htext⟩ := List.forall_mem_cons.1 h
    simp only [List.mem_cons, List.not_mem_nil, or_false, not_or] at hc
    have hne : c ≠ quote := by
      rcases hquote with rfl | rfl
      · exact hc.2.1
      · exact hc.2.2.1
    obtain ⟨hvalue, hrest⟩ := ih htext
    rw [readString.eq_def]
    simp [hne, hc, Reading.map, Reading.precededBy, hvalue, hrest, Except.map]

theorem BraceAfterString.of_step {quote : Char} (f : List Char → List Char) (taken : List Char)
    {text : List Char}
    (hstep : ∀ text, readString quote (taken ++ text) =
      ((readString quote text).map (·.map f)).precededBy taken)
    (h : BraceAfterString quote text) : BraceAfterString quote (taken ++ text) := by
  cases h with
  | outside h =>
    refine .outside fun after => ?_
    rw [List.append_assoc, hstep, hstep, h after]
    rfl
  | inside h hrest =>
    refine .inside (fun after hafter => ?_) fun after => ?_
    · obtain ⟨hvalue, hnil⟩ := h after hafter
      rw [List.append_assoc, hstep]
      simp [Reading.map, Reading.precededBy, hvalue, hnil, Except.map]
    · rw [List.append_assoc, hstep]
      exact hrest after
  | escaped h =>
    refine .escaped fun after => ?_
    obtain ⟨hvalue, hrest⟩ := h after
    rw [List.append_assoc, hstep]
    simp [Reading.map, Reading.precededBy, hvalue, hrest, Except.map]

theorem braceAfterString {quote : Char} (hquote : quote = '"' ∨ quote = '\'')
    (text : List Char) : BraceAfterString quote text := by
  fun_induction readString quote text
  case case1 =>
    refine .inside (fun after hafter => ?_) fun after => ?_
    · exact readString_plain hquote (List.forall_mem_cons.2 ⟨by decide, hafter⟩)
    · have hne : '}' ≠ quote := by rcases hquote with rfl | rfl <;> decide
      have hsplits := congrArg List.length (readString_splits quote after)
      rw [List.length_append] at hsplits
      rw [List.nil_append, readString.eq_def]
      simp only [if_neg hne, if_neg (by decide : '}' ≠ '\\'), Reading.precededBy, Reading.map]
      omega
  case case2 text =>
    refine .outside fun after => ?_
    rw [List.cons_append, readString.eq_def, readString.eq_def]
    simp
  case case3 hne =>
    refine .escaped fun after => ?_
    rw [List.singleton_append, readString.eq_def]
    simp [hne, unescape?]
  case case4 d text e hd hne ih =>
    refine BraceAfterString.of_step (e :: ·) ['\\', d] (fun text => ?_) ih
    rw [List.cons_append, List.singleton_append, readString.eq_def]
    simp [hne, hd]
  case case5 d text hd hne =>
    refine .outside fun after => ?_
    rw [List.cons_append, List.cons_append, readString.eq_def, readString.eq_def]
    simp [hne, hd]
  case case6 c text hne hbackslash ih =>
    refine BraceAfterString.of_step (c :: ·) [c] (fun text => ?_) ih
    rw [List.singleton_append, readString.eq_def]
    simp only [if_neg hne, if_neg hbackslash]

inductive BraceAfterToken (c : Char) (text : List Char) : Prop
  | outside (h : StopsAtBrace (read c) text)
  | inside (h : ∀ after, Plain after →
      (read c (text ++ '}' :: after)).value = .invalid .unterminatedString ∧
        (read c (text ++ '}' :: after)).rest = [])
      (hrest : ∀ after, (read c (text ++ '}' :: after)).rest.length ≤ after.length)
  | escaped (h : ∀ after,
      (read c (text ++ '}' :: after)).value = .invalid (.unexpectedEscape '}') ∧
        (read c (text ++ '}' :: after)).rest = after)

theorem braceAfterToken (c : Char) (text : List Char) : BraceAfterToken c text := by
  cases hsymbol : Symbol.atStart? (c :: text) with
  | some s =>
    refine .outside fun after => ?_
    have hprefixed := List.find?_some hsymbol
    have hle : s.text.length ≤ (c :: text).length :=
      (List.isPrefixOf_iff_prefix.1 hprefixed).length_le
    rw [read, stopsAtBrace_symbol, read, hsymbol, ← List.cons_append]
    simp only [List.drop_append_of_le_length hle]
  | none =>
    have hnone (after : List Char) : Symbol.atStart? (c :: (text ++ '}' :: after)) = none := by
      rw [stopsAtBrace_symbol, hsymbol]
    by_cases hquote : c = '"' ∨ c = '\''
    · have hread (text : List Char) (h : Symbol.atStart? (c :: text) = none) :
          read c text = ((readString c text).map stringKind).precededBy [c] := by
        rw [read, h]
        exact if_pos hquote
      cases braceAfterString hquote text with
      | outside h =>
        refine .outside fun after => ?_
        rw [hread _ (hnone after), hread _ hsymbol, h after]
        rfl
      | inside h hrest =>
        refine .inside (fun after hafter => ?_) fun after => ?_
        · obtain ⟨hvalue, hnil⟩ := h after hafter
          rw [hread _ (hnone after)]
          simp [Reading.map, Reading.precededBy, hvalue, hnil, stringKind]
        · rw [hread _ (hnone after)]
          exact hrest after
      | escaped h =>
        refine .escaped fun after => ?_
        obtain ⟨hvalue, hrest⟩ := h after
        rw [hread _ (hnone after)]
        simp [Reading.map, Reading.precededBy, hvalue, hrest, stringKind]
    · refine .outside fun after => ?_
      simp only [read, hnone, hsymbol, if_neg hquote]
      split
      · exact stopsAtBrace_number (c :: text) after
      · split
        · exact stopsAtBrace_word (c :: text) after
        · rfl

inductive BraceAfterGap (inComment : Bool) (text : List Char) : Prop
  | outside (h : ∀ after, splitGap.go inComment (text ++ '}' :: after) =
      ((splitGap.go inComment text).1, (splitGap.go inComment text).2 ++ '}' :: after))
  | inside (h : ∀ after, Plain after → (splitGap.go inComment (text ++ '}' :: after)).2 = [])
      (hrest : ∀ after, (splitGap.go inComment (text ++ '}' :: after)).2.length ≤ after.length)

theorem splitGap_plain {text : List Char} (h : Plain text) : (splitGap.go true text).2 = [] := by
  induction text with
  | nil => rfl
  | cons c text ih =>
    obtain ⟨hc, htext⟩ := List.forall_mem_cons.1 h
    have hline : c ≠ '\n' := by
      rintro rfl
      simp at hc
    simp [splitGap.go, hline, ih htext]

theorem BraceAfterGap.of_step {inComment : Bool} (inComment' : Bool) {c : Char}
    {text : List Char}
    (hstep : splitGap.go inComment (c :: text) =
      (c :: (splitGap.go inComment' text).1, (splitGap.go inComment' text).2))
    (hafter : ∀ after, splitGap.go inComment (c :: (text ++ '}' :: after)) =
      (c :: (splitGap.go inComment' (text ++ '}' :: after)).1,
        (splitGap.go inComment' (text ++ '}' :: after)).2))
    (h : BraceAfterGap inComment' text) : BraceAfterGap inComment (c :: text) := by
  cases h with
  | outside h =>
    refine .outside fun after => ?_
    rw [List.cons_append, hafter, h after, hstep]
  | inside h hrest =>
    refine .inside (fun after hplain => ?_) fun after => ?_
    · rw [List.cons_append, hafter, h after hplain]
    · rw [List.cons_append, hafter]
      exact hrest after

theorem braceAfterGap (inComment : Bool) (text : List Char) : BraceAfterGap inComment text := by
  induction text generalizing inComment with
  | nil =>
    cases inComment with
    | true =>
      refine .inside (fun after hafter => ?_) fun after => ?_
      · exact splitGap_plain (List.forall_mem_cons.2 ⟨by decide, hafter⟩)
      · have hsplit := congrArg List.length (splitGap.go_append true after)
        rw [List.length_append] at hsplit
        rw [List.nil_append, splitGap.go, if_pos rfl]
        exact Nat.le_of_add_left_le (Nat.le_of_eq hsplit)
    | false => exact .outside fun after => rfl
  | cons c text ih =>
    have hhead (after : List Char) :
        c = '/' ∧ (text ++ '}' :: after).head? = some '/' ↔ c = '/' ∧ text.head? = some '/' := by
      cases text <;> simp
    by_cases hcomment : inComment
    · refine .of_step (c ≠ '\n') ?_ (fun after => ?_) (ih _)
      · simp [splitGap.go, hcomment]
      · simp [splitGap.go, hcomment]
    · by_cases hblank : isBlank c
      · refine .of_step false ?_ (fun after => ?_) (ih _)
        · simp [splitGap.go, hcomment, hblank]
        · simp [splitGap.go, hcomment, hblank]
      · by_cases hslashes : c = '/' ∧ text.head? = some '/'
        · refine .of_step true ?_ (fun after => ?_) (ih _)
          · rw [splitGap.go, if_neg hcomment, if_neg hblank, if_pos hslashes]
          · rw [splitGap.go, if_neg hcomment, if_neg hblank, if_pos ((hhead after).2 hslashes)]
        · refine .outside fun after => ?_
          rw [List.cons_append, splitGap.go, if_neg hcomment, if_neg hblank,
            if_neg (mt (hhead after).1 hslashes), splitGap.go, if_neg hcomment, if_neg hblank,
            if_neg hslashes]
          rfl

def HidesBrace (text : List Char) : Prop :=
  ∀ p after, ∀ t ∈ scan p (text ++ '}' :: after), t.position.offset ≠ (p.after text).offset

inductive BraceAfter (text : List Char) : Prop
  /-- It is a token of its own. -/
  | token (h : ∀ p, ∃ ts, ∀ after,
      scan p (text ++ '}' :: after) = ts ++ scan (p.after text) ('}' :: after))
  /-- It belongs to a comment or to a string, which go on after it. -/
  | inside (tokens : List TokenKind)
      (h : ∀ after, Plain after → kinds (text ++ '}' :: after) = tokens)
      (hhides : HidesBrace text)
  | escaped (tokens : List TokenKind) (cause : LexicalError)
      (h : ∀ after, kinds (text ++ '}' :: after) = tokens ++ .invalid cause :: kinds after)
      (hhides : HidesBrace text)

theorem byteSize_lt_of_length_le {taken rest text after : List Char}
    (h : taken ++ rest = text ++ '}' :: after) (hrest : rest.length ≤ after.length) :
    Text.byteSize text < Text.byteSize taken := by
  rw [List.append_eq_append_iff] at h
  rcases h with ⟨middle, rfl, hmiddle⟩ | ⟨middle, rfl, hmiddle⟩
  · have hlength := congrArg List.length hmiddle
    rw [List.length_append, List.length_cons] at hlength
    omega
  · cases middle with
    | nil =>
      have hlength := congrArg List.length hmiddle
      rw [List.nil_append, List.length_cons] at hlength
      omega
    | cons c middle =>
      have := c.utf8Size_pos
      simp only [Text.byteSize_append, Text.byteSize_cons]
      omega

theorem offset_le_of_mem_scan {p : Position} {text : List Char} {t : Token} (ht : t ∈ scan p text) :
    p.offset + Text.byteSize (splitGap text).1 ≤ t.position.offset := by
  rw [← Position.offset_after]
  fun_induction scan p text with
  | case1 p text p' h =>
    cases List.mem_singleton.1 ht
    exact Nat.le_refl _
  | case2 p text p' c rest h r ih =>
    rcases List.mem_cons.1 ht with rfl | ht
    · exact Nat.le_refl _
    · refine Nat.le_trans ?_ (ih ht)
      simp only [p', Position.offset_after]
      omega

theorem hidesBrace_of_gap {text : List Char}
    (h : ∀ after, (splitGap (text ++ '}' :: after)).2.length ≤ after.length) : HidesBrace text := by
  intro p after t ht
  have hle := offset_le_of_mem_scan ht
  have hlt := byteSize_lt_of_length_le (splitGap_append _) (h after)
  rw [Position.offset_after]
  omega

section

variable {text : List Char} {c : Char} {rest : List Char}

theorem hidesBrace_of_rest (hsplit : (splitGap text).1 ++ c :: rest = text)
    (hgap : ∀ after, splitGap (text ++ '}' :: after) =
      ((splitGap text).1, c :: (rest ++ '}' :: after)))
    (hrest : ∀ (p : Position) (after : List Char),
      ∀ t ∈ scan (p.after (read c (rest ++ '}' :: after)).lexeme)
        (read c (rest ++ '}' :: after)).rest,
        t.position.offset ≠ (p.after (c :: rest)).offset) :
    HidesBrace text := by
  intro p after t ht
  rw [← hsplit, Position.after_append]
  rw [scan_of_read (congrArg Prod.snd (hgap after)), List.mem_cons] at ht
  rcases ht with rfl | ht
  · have := c.utf8Size_pos
    simp only [hgap, Position.offset_after, Text.byteSize_cons]
    omega
  · rw [hgap] at ht
    exact hrest _ after t ht

theorem hidesBrace_of_token (hsplit : (splitGap text).1 ++ c :: rest = text)
    (hgap : ∀ after, splitGap (text ++ '}' :: after) =
      ((splitGap text).1, c :: (rest ++ '}' :: after)))
    (h : ∀ after, (read c (rest ++ '}' :: after)).rest.length ≤ after.length) :
    HidesBrace text := by
  refine hidesBrace_of_rest hsplit hgap fun p after t ht => ?_
  have hle := offset_le_of_mem_scan ht
  have hread : (read c (rest ++ '}' :: after)).lexeme ++ (read c (rest ++ '}' :: after)).rest =
      c :: rest ++ '}' :: after := read_splits c _
  have hlt := byteSize_lt_of_length_le hread (h after)
  rw [Position.offset_after] at hle ⊢
  omega

theorem HidesBrace.after_token (hsplit : (splitGap text).1 ++ c :: rest = text)
    (hgap : ∀ after, splitGap (text ++ '}' :: after) =
      ((splitGap text).1, c :: (rest ++ '}' :: after)))
    (hstops : StopsAtBrace (read c) rest) (h : HidesBrace (read c rest).rest) :
    HidesBrace text := by
  refine hidesBrace_of_rest hsplit hgap fun p after t ht => ?_
  rw [hstops after] at ht
  rw [← read_splits c rest, Position.after_append]
  exact h _ after t ht

end

theorem braceAfter (text : List Char) : BraceAfter text := by
  induction hlength : text.length using Nat.strongRecOn generalizing text with
  | ind length ih =>
    subst hlength
    cases braceAfterGap false text with
    | inside h hrest =>
      refine .inside [.endOfInput] (fun after hafter => ?_) (hidesBrace_of_gap hrest)
      exact kinds_of_gap (h after hafter)
    | outside hgap =>
      have hsplit : (splitGap text).1 ++ (splitGap text).2 = text := splitGap_append text
      replace hgap (after : List Char) : splitGap (text ++ '}' :: after) =
          ((splitGap text).1, (splitGap text).2 ++ '}' :: after) := hgap after
      cases hrest : (splitGap text).2 with
      | nil =>
        rw [hrest, List.append_nil] at hsplit
        refine .token fun p => ⟨[], fun after => ?_⟩
        have hbrace : splitGap ('}' :: after) = ([], '}' :: after) := rfl
        have hfirst : (splitGap (text ++ '}' :: after)).2 = '}' :: after := by
          rw [hgap, hrest]
          rfl
        rw [scan_of_read hfirst, List.nil_append, scan_of_read (congrArg Prod.snd hbrace), hgap,
          hbrace, hsplit]
        rfl
      | cons c rest =>
        rw [hrest] at hsplit
        replace hgap (after : List Char) : splitGap (text ++ '}' :: after) =
            ((splitGap text).1, c :: (rest ++ '}' :: after)) := by
          rw [hgap, hrest]
          rfl
        have hfirst (after : List Char) :
            (splitGap (text ++ '}' :: after)).2 = c :: (rest ++ '}' :: after) := by
          rw [hgap]
        cases braceAfterToken c rest with
        | inside h hle =>
          refine .inside [.invalid .unterminatedString, .endOfInput] (fun after hafter => ?_)
            (hidesBrace_of_token hsplit hgap hle)
          obtain ⟨hvalue, hnil⟩ := h after hafter
          rw [kinds_of_read (hfirst after), hvalue, hnil, kinds_of_gap rfl]
        | escaped h =>
          refine .escaped [] (.unexpectedEscape '}') (fun after => ?_)
            (hidesBrace_of_token hsplit hgap fun after => Nat.le_of_eq (by rw [(h after).2]))
          obtain ⟨hvalue, hafter⟩ := h after
          rw [kinds_of_read (hfirst after), hvalue, hafter]
          rfl
        | outside h =>
          have hlt : (read c rest).rest.length < text.length := by
            have hread := read_rest_length_lt c rest
            have hle := splitGap_rest_length_le text
            rw [hrest] at hle
            omega
          cases ih _ hlt _ rfl with
          | inside tokens h' hhides =>
            refine .inside ((read c rest).value :: tokens) (fun after hafter => ?_)
              (hhides.after_token hsplit hgap h)
            rw [kinds_of_read (hfirst after), h after, h' after hafter]
          | escaped tokens cause h' hhides =>
            refine .escaped ((read c rest).value :: tokens) cause (fun after => ?_)
              (hhides.after_token hsplit hgap h)
            rw [kinds_of_read (hfirst after), h after, h' after, List.cons_append]
          | token h' =>
            refine .token fun p => ?_
            obtain ⟨ts, hts⟩ := h' ((p.after (splitGap text).1).after (read c rest).lexeme)
            let t : Token :=
              { kind := (read c rest).value, lexeme := String.ofList (read c rest).lexeme,
                position := p.after (splitGap text).1 }
            have htext :
                (splitGap text).1 ++ ((read c rest).lexeme ++ (read c rest).rest) = text := by
              rw [read_splits c rest, hsplit]
            refine ⟨t :: ts, fun after => ?_⟩
            rw [scan_of_read (hfirst after), h after, hgap, hts after, List.cons_append,
              ← Position.after_append, ← Position.after_append, htext]

def closingBrace (p : Position) : Token where
  kind := .symbol .rightBrace
  lexeme := "\x7d"
  position := p

theorem scan_brace (p : Position) (after : List Char) :
    scan p ('}' :: after) = closingBrace p :: scan (p.next '}') after :=
  scan_of_read (splitGap_cons (by decide) (by decide) after) p

theorem exists_scan_of_mem {p : Position} {text after : List Char} {t : Token}
    (ht : t ∈ scan p (text ++ '}' :: after)) (hposition : t.position = p.after text) :
    ∃ ts, ∀ after, scan p (text ++ '}' :: after) =
      ts ++ closingBrace (p.after text) :: scan (p.after (text ++ ['}'])) after := by
  cases braceAfter text with
  | token h =>
    obtain ⟨ts, hts⟩ := h p
    refine ⟨ts, fun after => ?_⟩
    rw [hts, scan_brace, Position.after_append]
    rfl
  | inside _ _ hhides => exact absurd (congrArg Position.offset hposition) (hhides p after t ht)
  | escaped _ _ _ hhides => exact absurd (congrArg Position.offset hposition) (hhides p after t ht)

theorem Scans.exists_scan {text : List Char} {tokens : List TokenKind}
    (h : Scans (text ++ ['}']) (tokens ++ [.symbol .rightBrace])) (p : Position) :
    ∃ ts, ts.map Token.kind = tokens ∧ ∀ after,
      scan p (text ++ '}' :: after) =
        ts ++ closingBrace (p.after text) :: scan (p.after (text ++ ['}'])) after := by
  replace h (after : List Char) :
      kinds (text ++ '}' :: after) = tokens ++ [.symbol .rightBrace] ++ kinds after := by
    rw [List.append_cons]
    exact h after
  cases braceAfter text with
  | token htoken =>
    obtain ⟨ts, hts⟩ := htoken p
    have hscan (after : List Char) : scan p (text ++ '}' :: after) =
        ts ++ closingBrace (p.after text) :: scan (p.after (text ++ ['}'])) after := by
      rw [hts, scan_brace, Position.after_append]
      rfl
    refine ⟨ts, ?_, hscan⟩
    have hkinds := h []
    rw [← map_kind_scan_eq_kinds p, hscan, List.map_append, List.map_cons, List.append_assoc,
      map_kind_scan_eq_kinds] at hkinds
    exact List.append_cancel_right hkinds
  | inside tokens' hinside _ =>
    -- A semicolon after the brace would be lost.
    have hnil := h []
    have hsemicolon := h [';']
    rw [hinside _ (by simp [Plain])] at hnil
    rw [hinside _ (by simp [Plain]), hnil] at hsemicolon
    have hkinds : kinds [] = .symbol .semicolon :: kinds [] :=
      (List.append_cancel_left hsemicolon).trans
        (scans_nil.symbol_cons .semicolon rfl rfl [])
    exact absurd (congrArg List.length hkinds) (by simp)
  | escaped tokens' cause hescaped _ =>
    have hnil := h []
    rw [hescaped, List.append_cons] at hnil
    have hlast := congrArg List.getLast? (List.append_cancel_right hnil)
    simp at hlast

end Token

end LiterateFun
