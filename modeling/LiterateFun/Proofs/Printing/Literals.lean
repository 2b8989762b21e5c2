import LiterateFun.Number.Decimal
import LiterateFun.Proofs.Scanning
import LiterateFun.Text.Quoted

/-!
This module contains the tokens of printed strings, numbers and names.
-/

namespace LiterateFun

namespace Text

def isQuotable (c : Char) : Bool :=
  quoteChar c ∈ [String.singleton c, "\\t", "\\r", "\\n", "\\\\", "\\\""]

theorem eq_escaped_or_verbatim {c : Char} (h : isQuotable c) :
    c ∈ ['\t', '\r', '\n', '\\', '"'] ∨ c ≠ '"' ∧ c ≠ '\\' ∧ quoteChar c = String.singleton c := by
  by_cases hnull : c = '\x00'
  · rw [hnull] at h
    contradiction
  · by_cases hescaped : c ∈ ['\t', '\r', '\n', '\\', '"']
    · exact .inl hescaped
    · simp only [List.mem_cons, List.not_mem_nil, or_false, not_or] at hescaped
      by_cases hvisible : isVisible c
      · refine .inr ⟨hescaped.2.2.2.2, hescaped.2.2.2.1, ?_⟩
        simp [quoteChar, hnull, hescaped, hvisible]
      · -- What is left is written by its code point, which looks like none of the escapes.
        simp [isQuotable, quoteChar, hnull, hescaped, hvisible, ← String.toList_inj] at h

theorem readString_quoteChar {c : Char} (h : isQuotable c) (text : List Char) :
    Token.readString '"' ((quoteChar c).toList ++ text) =
      ((Token.readString '"' text).map (·.map (c :: ·))).precededBy (quoteChar c).toList := by
  obtain hescaped | ⟨hquote, hbackslash, hverbatim⟩ := eq_escaped_or_verbatim h
  · simp only [List.mem_cons, List.not_mem_nil, or_false] at hescaped
    obtain rfl | rfl | rfl | rfl | rfl := hescaped <;> rfl
  · rw [hverbatim, String.toList_singleton, List.singleton_append, Token.readString.eq_def]
    simp [hquote, hbackslash]

def quoteChars (value : List Char) : List Char :=
  value.flatMap fun c => (quoteChar c).toList

theorem readString_quoteChars {value : List Char} (h : ∀ c ∈ value, isQuotable c)
    (rest : List Char) :
    Token.readString '"' (quoteChars value ++ '"' :: rest) =
      { value := .ok value, lexeme := quoteChars value ++ ['"'], rest := rest } := by
  induction value with
  | nil =>
    rw [Token.readString.eq_def]
    rfl
  | cons c value ih =>
    have hcons : quoteChars (c :: value) = (quoteChar c).toList ++ quoteChars value :=
      List.flatMap_cons
    rw [hcons, List.append_assoc, readString_quoteChar (h c (by simp)),
      ih fun d hd => h d (by simp [hd])]
    simp [Reading.map, Reading.precededBy, Except.map]

theorem scans_quote {value : String} (h : ∀ c ∈ value.toList, isQuotable c) :
    Token.Scans (quote value).toList [.string value] := by
  intro rest
  have htext : (quote value).toList ++ rest = '"' :: (quoteChars value.toList ++ '"' :: rest) := by
    simp [quote, quoteChars, String.toList_join, List.flatMap_map]
  rw [htext, Token.kinds_cons (by decide) (by decide), Token.read_quote, readString_quoteChars h]
  simp [Reading.map, Reading.precededBy, Token.stringKind]

end Text

theorem Decimal.mem_text {d : Decimal} {c : Char} (h : c ∈ d.text.toList) :
    c.isDigit ∨ c = '.' := by
  have hdigits : ∀ c ∈ Nat.toDigits 10 d.digits, c.isDigit := by
    intro c
    apply Nat.isDigit_of_mem_toDigits <;> decide
  have hzeros : ∀ n, ∀ c ∈ (Decimal.zeros n).toList, c.isDigit := by
    intro n c hc
    simp only [Decimal.zeros, String.toList_ofList, List.mem_replicate] at hc
    rw [hc.2]
    rfl
  unfold Decimal.text at h
  split at h
  · simp only [String.toList_append, String.toList_ofList, List.mem_append] at h
    obtain h | h := h
    · exact .inl (hdigits c h)
    · exact .inl (hzeros _ c h)
  · dsimp only at h
    split at h
    · simp only [String.toList_append, String.toList_ofList, List.mem_append] at h
      obtain (h | h) | h := h
      · exact .inl (hdigits c (List.mem_of_mem_take h))
      · exact .inr (by simpa using h)
      · exact .inl (hdigits c (List.mem_of_mem_drop h))
    · simp only [String.toList_append, String.toList_ofList, List.mem_append] at h
      obtain (h | h) | h := h
      · simp only [String.reduceToList, List.mem_cons, List.not_mem_nil, or_false] at h
        obtain rfl | rfl := h
        · exact .inl rfl
        · exact .inr rfl
      · exact .inl (hzeros _ c h)
      · exact .inl (hdigits c h)

theorem Decimal.toList_text_ne_nil (d : Decimal) : d.text.toList ≠ [] := by
  unfold Decimal.text
  split
  · simp
  · dsimp only
    split <;> simp

theorem Number.text_ne_empty (x : Number) : x.text ≠ "" := by
  have hdecimal : (Decimal.shortest x).text ≠ "" := fun h =>
    (Decimal.shortest x).toList_text_ne_nil (by rw [h]; rfl)
  unfold Number.text
  split_ifs <;> simp [hdecimal]

theorem Number.isDigit_or_mem_of_mem_text {x : Number} {c : Char} (h : c ∈ x.text.toList) :
    c.isDigit ∨ c ∈ ".-NaNinf".toList := by
  have hword : ∀ word ∈ ["NaN", "inf", "0"], c ∈ word.toList →
      c.isDigit ∨ c ∈ ".-NaNinf".toList := by
    simp only [List.mem_cons, List.not_mem_nil, or_false]
    rintro word (rfl | rfl | rfl) hc
    all_goals
      simp only [String.reduceToList, List.mem_cons, List.not_mem_nil, or_false] at hc
      obtain rfl | rfl | rfl := hc <;> decide
  unfold Number.text at h
  split at h
  · exact hword _ (by simp) h
  · rw [String.toList_append, List.mem_append] at h
    obtain h | h := h
    · split at h
      · exact .inr (by simp_all)
      · simp at h
    · split at h
      · exact hword _ (by simp) h
      · split at h
        · exact hword _ (by simp) h
        · obtain h | rfl := Decimal.mem_text h
          · exact .inl h
          · exact .inr (by simp)

theorem Number.mem_text {x : Number} {c : Char} (h : c ∈ x.text.toList) :
    Token.isWordRest c ∨ c = '.' ∨ c = '-' := by
  rcases isDigit_or_mem_of_mem_text h with h | h
  · exact .inl (Token.isWordRest_of_isDigit h)
  · simp only [String.reduceToList, List.mem_cons, List.not_mem_nil, or_false] at h
    obtain rfl | rfl | rfl | rfl | rfl | rfl | rfl | rfl := h <;> decide

theorem Number.scansApart_text {x : Number}
    (h : Token.kinds x.text.toList = [.number x, .endOfInput]) :
    Token.ScansApart x.text.toList [.number x] := by
  apply Token.scansApart_number _ h
  intro c hc
  obtain h | rfl | rfl := Number.mem_text hc
  · exact ⟨Token.not_isBlank_of_isWordRest h, Token.ne_slash_of_isWordRest h⟩
  · decide
  · decide

/-- A letter or underscore and then letters, digits and underscores, but not a keyword. -/
def isName (name : String) : Bool :=
  match name.toList with
  | [] => false
  | c :: cs =>
    (c.isAlpha || c == '_') && cs.all (fun d => d.isAlphanum || d == '_') &&
      !(["if", "else", "return"].contains name)

theorem wordKind_of_notMem {name : String} (h : name ∉ ["if", "else", "return"]) :
    Token.wordKind name = .identifier name := by
  have hnone : Keyword.ofText? name = none := by
    simp only [List.mem_cons, List.not_mem_nil, or_false, not_or] at h
    simp [Keyword.ofText?, Keyword.text, Ne.symm h.1, Ne.symm h.2.1, Ne.symm h.2.2]
  simp [Token.wordKind, hnone]

theorem scansApart_name {name : String} (h : isName name) :
    Token.ScansApart name.toList [.identifier name] := by
  unfold isName at h
  split at h
  next => contradiction
  next c cs hname =>
    simp only [Bool.and_eq_true, Bool.not_eq_true', List.contains_eq_mem, decide_eq_false_iff_not]
      at h
    have hword : Token.ScansApart (c :: cs) [Token.wordKind (String.ofList (c :: cs))] := by
      apply Token.scansApart_word
      · simpa [Token.isWordStart] using h.1.1
      · simpa [Token.isWordRest] using h.1.2
    rw [← hname, String.ofList_toList, wordKind_of_notMem h.2] at hword
    exact hword

end LiterateFun
