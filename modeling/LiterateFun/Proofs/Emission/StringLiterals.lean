import LiterateFun.Number.Numeral
import LiterateFun.Script.StringLiteral

/-!
This module contains the reading of string literals in scripts. The literal of a string ends at its
first quote that is not escaped, whatever comes after it, and it denotes the string.
-/

namespace LiterateFun.Script

def unescape? (c : Char) : Option Char :=
  if c = '"' ∨ c = '\\' then some c
  else if c = 'n' then some '\n'
  else if c = 't' then some '\t'
  else if c = 'r' then some '\r'
  else none

def codePoint? (digits : List Char) : Option Nat := do
  let values ← digits.mapM (Numeral.digit? 16)
  if values.length = 4 then some (values.foldl (fun n value => 16 * n + value) 0) else none

def readEscape (text : List Char) : Option (Char × List Char) :=
  match text with
  | [] => none
  | c :: text =>
    if c = 'u' then do
      let n ← codePoint? (text.take 4)
      if n.isValidChar then some (Char.ofNat n, text.drop 4) else none
    else
      (unescape? c).map (·, text)

theorem readEscape_rest_length_lt {text rest : List Char} {c : Char}
    (h : readEscape text = some (c, rest)) : rest.length < text.length := by
  unfold readEscape at h
  split at h
  · cases h
  next d text =>
    have hle : rest.length ≤ text.length := by
      split at h
      · obtain ⟨n, -, h⟩ := Option.bind_eq_some_iff.1 h
        split at h
        · cases h
          simp
        · cases h
      · obtain ⟨e, -, h⟩ := Option.map_eq_some_iff.1 h
        cases h
        exact Nat.le_refl _
    rw [List.length_cons]
    omega

/--
Read the characters of a string literal after its opening quote, and the text after its closing one.
No line may end in between.
-/
def readCharacters (text : List Char) : Option (List Char × List Char) :=
  match text with
  | [] => none
  | c :: text =>
    if c = '"' then
      some ([], text)
    else if c = '\\' then
      match _h : readEscape text with
      | none => none
      | some (d, rest) => (readCharacters rest).map fun (value, after) => (d :: value, after)
    else if c = '\n' ∨ c = '\r' then
      none
    else
      (readCharacters text).map fun (value, after) => (c :: value, after)
termination_by text.length
decreasing_by
  · have := readEscape_rest_length_lt _h
    simp only [List.length_cons]
    omega
  · simp

def readLiteral (text : List Char) : Option (List Char × List Char) :=
  match text with
  | [] => none
  | c :: text => if c = '"' then readCharacters text else none

theorem readCharacters_quote (rest : List Char) :
    readCharacters ('"' :: rest) = some ([], rest) := by
  rw [readCharacters, if_pos rfl]

theorem readCharacters_escape {text rest : List Char} {c : Char}
    (h : readEscape text = some (c, rest)) :
    readCharacters ('\\' :: text) =
      (readCharacters rest).map fun (value, after) => (c :: value, after) := by
  rw [readCharacters, if_neg (by decide), if_pos rfl]
  split
  next hnone =>
    rw [h] at hnone
    cases hnone
  next hsome =>
    rw [h] at hsome
    cases hsome
    rfl

theorem readCharacters_plain {c : Char} (hquote : c ≠ '"') (hbackslash : c ≠ '\\')
    (hcontrol : ¬isControl c) (text : List Char) :
    readCharacters (c :: text) =
      (readCharacters text).map fun (value, after) => (c :: value, after) := by
  have hline : ¬(c = '\n' ∨ c = '\r') := by
    rintro (rfl | rfl) <;> exact hcontrol (by decide)
  rw [readCharacters, if_neg hquote, if_neg hbackslash, if_neg hline]

theorem digit?_digitChar : ∀ n < 16, Numeral.digit? 16 n.digitChar = some n := by
  decide

theorem codePoint?_hex4 {n : Nat} (h : n < 65536) : codePoint? (hex4 n) = some n := by
  have hdigit (k : Nat) : Numeral.digit? 16 (k % 16).digitChar = some (k % 16) :=
    digit?_digitChar _ (Nat.mod_lt _ (by decide))
  simp [codePoint?, hex4, hdigit]
  omega

theorem readEscape_control {c : Char} (h : isControl c) (text : List Char) :
    readEscape ('u' :: (hex4 c.toNat ++ text)) = some (c, text) := by
  have hlt : c.toNat < 65536 := by
    simp only [isControl, decide_eq_true_eq] at h
    omega
  have htake : (hex4 c.toNat ++ text).take 4 = hex4 c.toNat := rfl
  have hdrop : (hex4 c.toNat ++ text).drop 4 = text := rfl
  have hvalid : c.toNat.isValidChar := c.valid
  simp [readEscape, htake, hdrop, codePoint?_hex4 hlt, hvalid]

theorem escapeChar_cases (c : Char) :
    (∃ d ∈ ['"', '\\', 'n', 't', 'r'], unescape? d = some c ∧ escapeChar c = ['\\', d]) ∨
      (isControl c ∧ escapeChar c = '\\' :: 'u' :: hex4 c.toNat) ∨
      (c ≠ '"' ∧ c ≠ '\\' ∧ ¬isControl c ∧ escapeChar c = [c]) := by
  unfold escapeChar
  split
  next h => exact .inl ⟨'"', by decide, by rw [h]; rfl, rfl⟩
  next hquote =>
    split
    next h => exact .inl ⟨'\\', by decide, by rw [h]; rfl, rfl⟩
    next hbackslash =>
      split
      next h => exact .inl ⟨'n', by decide, by rw [h]; rfl, rfl⟩
      · split
        next h => exact .inl ⟨'t', by decide, by rw [h]; rfl, rfl⟩
        · split
          next h => exact .inl ⟨'r', by decide, by rw [h]; rfl, rfl⟩
          · split
            next h => exact .inr (.inl ⟨h, rfl⟩)
            next h => exact .inr (.inr ⟨hquote, hbackslash, h, rfl⟩)

theorem readCharacters_escapeChar (c : Char) (text : List Char) :
    readCharacters (escapeChar c ++ text) =
      (readCharacters text).map fun (value, after) => (c :: value, after) := by
  rcases escapeChar_cases c with
    ⟨d, hd, hc, heq⟩ | ⟨hcontrol, heq⟩ | ⟨hquote, hbackslash, hcontrol, heq⟩
  · have hescape : readEscape (d :: text) = some (c, text) := by
      have hu : d ≠ 'u' := by
        rintro rfl
        revert hd
        decide
      rw [readEscape, if_neg hu, hc]
      rfl
    rw [heq]
    exact readCharacters_escape hescape
  · rw [heq]
    exact readCharacters_escape (readEscape_control hcontrol text)
  · rw [heq]
    exact readCharacters_plain hquote hbackslash hcontrol text

theorem readCharacters_flatMap_escapeChar (value rest : List Char) :
    readCharacters (value.flatMap escapeChar ++ '"' :: rest) = some (value, rest) := by
  induction value with
  | nil => exact readCharacters_quote rest
  | cons c value ih =>
    rw [List.flatMap_cons, List.append_assoc, readCharacters_escapeChar, ih]
    rfl

/--
Whether the character after a text is escaped: there is a backslash in front of it that is not
escaped itself.
-/
def escapesNext (text : List Char) : Bool :=
  text.foldl (fun escaped c => !escaped && c = '\\') false

theorem escapesNext_append {text : List Char} (h : ¬escapesNext text) (after : List Char) :
    escapesNext (text ++ after) = escapesNext after := by
  have hfalse : text.foldl (fun escaped c => !escaped && c = '\\') false = false :=
    Bool.eq_false_iff.2 h
  rw [escapesNext, List.foldl_append, hfalse]
  rfl

/-- The text starts with an escape of two characters, or with one of four hexadecimal digits. -/
inductive StartsEscape : List Char → Prop
  | character {c : Char} {rest : List Char} (h : c ∈ ['"', '\\', 'n', 't', 'r']) :
      StartsEscape ('\\' :: c :: rest)
  | codePoint {digits rest : List Char} (hlength : digits.length = 4)
      (h : ∀ d ∈ digits, Numeral.isDigit 16 d) : StartsEscape ('\\' :: 'u' :: (digits ++ rest))

structure IsLiteralBody (body : List Char) : Prop where
  no_control : ∀ c ∈ body, ¬isControl c
  /-- Every quote is escaped. -/
  quotes : ∀ before after, body = before ++ '"' :: after → escapesNext before
  /-- A backslash that is not escaped starts an escape. -/
  backslashes : ∀ before after, body = before ++ '\\' :: after → ¬escapesNext before →
    StartsEscape ('\\' :: after)
  /-- The quote after the text is not escaped. -/
  closed : ¬escapesNext body

theorem StartsEscape.append {text : List Char} (h : StartsEscape text) (after : List Char) :
    StartsEscape (text ++ after) := by
  cases h with
  | character hc => exact .character hc
  | codePoint hlength hdigits =>
    simp only [List.cons_append, List.append_assoc]
    exact .codePoint hlength hdigits

theorem isLiteralBody_nil : IsLiteralBody [] where
  no_control := by simp
  quotes := by simp
  backslashes := by simp
  closed := by simp [escapesNext]

theorem IsLiteralBody.append {body body' : List Char} (h : IsLiteralBody body)
    (h' : IsLiteralBody body') : IsLiteralBody (body ++ body') where
  no_control := List.forall_mem_append.2 ⟨h.no_control, h'.no_control⟩
  quotes before after heq := by
    rcases List.append_eq_append_iff.1 heq with ⟨rest, rfl, hrest⟩ | ⟨rest, rfl, hrest⟩
    · rw [escapesNext_append h.closed]
      exact h'.quotes rest after hrest
    · cases rest with
      | nil =>
        have hquote := h'.quotes [] after hrest.symm
        contradiction
      | cons c rest =>
        obtain ⟨rfl, rfl⟩ := List.cons.inj hrest
        exact h.quotes before rest rfl
  backslashes before after heq hbefore := by
    rcases List.append_eq_append_iff.1 heq with ⟨rest, rfl, hrest⟩ | ⟨rest, rfl, hrest⟩
    · rw [escapesNext_append h.closed] at hbefore
      exact h'.backslashes rest after hrest hbefore
    · cases rest with
      | nil => exact h'.backslashes [] after hrest.symm (by decide)
      | cons c rest =>
        obtain ⟨rfl, rfl⟩ := List.cons.inj hrest
        exact (h.backslashes before rest rfl hbefore).append body'
  closed := by
    rw [escapesNext_append h.closed]
    exact h'.closed

theorem mem_hex4 {n : Nat} {c : Char} (h : c ∈ hex4 n) :
    Numeral.isDigit 16 c ∧ ¬isControl c ∧ c ≠ '"' ∧ c ≠ '\\' := by
  have hdigit : ∀ k < 16, Numeral.isDigit 16 k.digitChar ∧ ¬isControl k.digitChar ∧
      k.digitChar ≠ '"' ∧ k.digitChar ≠ '\\' := by
    decide +kernel
  obtain ⟨k, hk, rfl⟩ := List.mem_map.1 h
  apply hdigit
  simp only [List.mem_cons, List.not_mem_nil, or_false] at hk
  omega

theorem isLiteralBody_character {d : Char} (h : d ∈ ['"', '\\', 'n', 't', 'r']) :
    IsLiteralBody ['\\', d] where
  no_control := by
    have hd : ¬isControl d := by
      simp only [List.mem_cons, List.not_mem_nil, or_false] at h
      obtain rfl | rfl | rfl | rfl | rfl := h <;> decide
    simpa [isControl] using hd
  quotes before after heq := by
    rcases before with _ | ⟨c, _ | ⟨c', before⟩⟩
    · simp at heq
    · obtain ⟨rfl, -⟩ := List.cons.inj heq
      rfl
    · simp at heq
  backslashes before after heq hbefore := by
    rcases before with _ | ⟨c, _ | ⟨c', before⟩⟩
    · obtain ⟨-, rfl⟩ := List.cons.inj heq
      exact .character h
    · obtain ⟨rfl, -⟩ := List.cons.inj heq
      exact absurd rfl hbefore
    · simp at heq
  closed := by simp [escapesNext]

theorem isLiteralBody_codePoint (n : Nat) : IsLiteralBody ('\\' :: 'u' :: hex4 n) where
  no_control := by
    simp only [List.forall_mem_cons]
    exact ⟨by decide, by decide, fun c hc => (mem_hex4 hc).2.1⟩
  quotes before after heq := by
    have hmem : '"' ∈ '\\' :: 'u' :: hex4 n := by
      rw [heq]
      simp
    simp only [List.mem_cons, Char.reduceEq, false_or] at hmem
    exact absurd rfl (mem_hex4 hmem).2.2.1
  backslashes before after heq hbefore := by
    cases before with
    | nil =>
      obtain ⟨-, rfl⟩ := List.cons.inj heq
      rw [← List.append_nil (hex4 n)]
      exact .codePoint rfl fun d hd => (mem_hex4 hd).1
    | cons c before =>
      have hmem : '\\' ∈ 'u' :: hex4 n := by
        rw [(List.cons.inj heq).2]
        simp
      simp only [List.mem_cons, Char.reduceEq, false_or] at hmem
      exact absurd rfl (mem_hex4 hmem).2.2.2
  closed := by
    have hlast : (n % 16).digitChar ≠ '\\' := (mem_hex4 (n := n) (by simp [hex4])).2.2.2
    simp [escapesNext, hex4, hlast]

theorem isLiteralBody_plain {c : Char} (hquote : c ≠ '"') (hbackslash : c ≠ '\\')
    (hcontrol : ¬isControl c) : IsLiteralBody [c] where
  no_control := List.forall_mem_singleton.2 hcontrol
  quotes before after heq := by
    have hmem : '"' ∈ [c] := by
      rw [heq]
      simp
    exact absurd (List.mem_singleton.1 hmem).symm hquote
  backslashes before after heq _ := by
    have hmem : '\\' ∈ [c] := by
      rw [heq]
      simp
    exact absurd (List.mem_singleton.1 hmem).symm hbackslash
  closed := by simp [escapesNext, hbackslash]

theorem isLiteralBody_escapeChar (c : Char) : IsLiteralBody (escapeChar c) := by
  rcases escapeChar_cases c with ⟨d, hd, -, heq⟩ | ⟨-, heq⟩ | ⟨hquote, hbackslash, hcontrol, heq⟩
  · rw [heq]
    exact isLiteralBody_character hd
  · rw [heq]
    exact isLiteralBody_codePoint c.toNat
  · rw [heq]
    exact isLiteralBody_plain hquote hbackslash hcontrol

theorem isLiteralBody_flatMap_escapeChar (value : List Char) :
    IsLiteralBody (value.flatMap escapeChar) := by
  induction value with
  | nil => exact isLiteralBody_nil
  | cons c value ih =>
    rw [List.flatMap_cons]
    exact (isLiteralBody_escapeChar c).append ih

/--
The literal of a string is closed by the first quote that is not escaped, which is its last
character. Whatever comes after it, the literal is read as the string.
-/
theorem readLiteral_stringLiteral (s : String) :
    ∃ body, (stringLiteral s).toList = '"' :: (body ++ ['"']) ∧ IsLiteralBody body ∧
      ∀ rest, readLiteral ((stringLiteral s).toList ++ rest) = some (s.toList, rest) := by
  have htext : (stringLiteral s).toList = '"' :: (s.toList.flatMap escapeChar ++ ['"']) := by
    rw [stringLiteral, String.toList_ofList]
    rfl
  refine ⟨s.toList.flatMap escapeChar, htext, isLiteralBody_flatMap_escapeChar s.toList, ?_⟩
  intro rest
  rw [htext, List.cons_append, List.append_assoc, readLiteral, if_pos rfl]
  exact readCharacters_flatMap_escapeChar s.toList rest

/-- An escaped backslash before what looks like an escape, and hexadecimal digits after one. -/
example : (stringLiteral "\\n\x1bab\"").toList = "\"\\\\n\\u001bab\\\"\"".toList := by
  decide +kernel

end LiterateFun.Script
