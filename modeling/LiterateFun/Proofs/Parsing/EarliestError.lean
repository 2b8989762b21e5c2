import LiterateFun.Proofs.Parsing.Lookahead

/-!
This module contains where the parser shows an error: at the first token that no program has there.
The tokens before it start a program, and no tokens after it can mend the error.
-/

namespace LiterateFun

open Parse Grammar

theorem Block.parse_eq_error_of_reads {ts rest : List Token} {b : Block}
    (h : Reads (block (Token.endAfter ts.getLast?) ts) b rest)
    (hnext : (next (Token.endAfter ts.getLast?) rest).kind ≠ .endOfInput) :
    Block.parse ts = .error (unexpected (Token.endAfter ts.getLast?) [.endOfInput] rest) := by
  obtain ⟨hlt, heq⟩ := h
  rw [Block.parse, heq]
  exact if_neg hnext

theorem Block.exists_of_parse_error {ts : List Token} {e : ParseError}
    (h : Block.parse ts = .error e) :
    ∃ taken rest, ts = taken ++ rest ∧ Viable IsBlock taken ∧
      ∀ rest', rest'.head? = rest.head? → Block.parse (taken ++ rest') =
        .error { e with token := next (Token.endAfter (taken ++ rest').getLast?) rest' } := by
  cases settled_block ts with
  | @reads b taken rest hts hb hlt hreads =>
    have hreads (rest' : List Token) := hreads (Token.endAfter (taken ++ rest').getLast?) rest'
      (Token.kind_endAfter _)
    -- The program ends before a token that is not the end of the input.
    have hnot : ¬∀ t ∈ rest.head?, t.kind = .endOfInput := by
      intro hall
      rw [hts, hb.parse hall] at h
      cases h
    obtain ⟨t, ht⟩ := Classical.not_forall.1 hnot
    obtain ⟨ht, hkind⟩ := Classical.not_imp.1 ht
    have herror (rest' : List Token) (hrest' : rest'.head? = rest.head?) :
        Block.parse (taken ++ rest') =
          .error (unexpected (Token.endAfter (taken ++ rest').getLast?) [.endOfInput] rest') := by
      refine Block.parse_eq_error_of_reads (hreads rest' hrest') ?_
      rw [next, hrest', ht]
      exact hkind
    rw [hts, herror rest rfl] at h
    cases h
    exact ⟨taken, rest, hts, viable_of_derives hb, herror⟩
  | @fails cause taken rest hts hviable hfails =>
    have herror (rest' : List Token) (hrest' : rest'.head? = rest.head?) :
        Block.parse (taken ++ rest') =
          .error { cause, token := next (Token.endAfter (taken ++ rest').getLast?) rest' } := by
      rw [Block.parse, hfails _ rest' (Token.kind_endAfter _) hrest']
      rfl
    rw [hts, herror rest rfl] at h
    cases h
    exact ⟨taken, rest, hts, hviable, herror⟩

/--
The parser shows an error at the first token that no program has there, or at the end of the input.
The tokens before it can be completed to a program. With that token, they can not, and the error is
the same whatever comes after it.
-/
theorem Block.parse_error_earliest {ts : List Token} {e : ParseError}
    (h : Block.parse ts = .error e) :
    ∃ k ≤ ts.length, e.token = ts[k]?.getD (Token.endAfter ts.getLast?) ∧
      (∃ us b, Block.parse (ts.take k ++ us) = .ok b) ∧
      (k < ts.length → ∀ us, Block.parse (ts.take (k + 1) ++ us) = .error e) := by
  obtain ⟨taken, rest, rfl, ⟨us, b, hb⟩, herror⟩ := Block.exists_of_parse_error h
  have htoken : e.token = next (Token.endAfter (taken ++ rest).getLast?) rest := by
    rw [herror rest rfl] at h
    exact (congrArg ParseError.token (Except.error.inj h)).symm
  refine ⟨taken.length, by simp, ?_, ⟨us, b, ?_⟩, ?_⟩
  · rw [htoken, List.getElem?_append_right (Nat.le_refl _), Nat.sub_self,
      ← List.head?_eq_getElem?]
    rfl
  · rw [List.take_left, ← List.append_nil (taken ++ us)]
    exact hb.parse (by simp)
  · intro hlt us
    cases rest with
    | nil => simp at hlt
    | cons t rest =>
      have htake : (taken ++ t :: rest).take (taken.length + 1) ++ us = taken ++ t :: us := by
        rw [List.take_length_add_append, List.take_succ_cons, List.take_zero, List.append_assoc]
        rfl
      rw [htake, herror (t :: us) rfl]
      exact congrArg Except.error (congrArg (ParseError.mk e.cause) htoken.symm)

def danglingCommaTokens : List Token :=
  [word "f" 0, mark .leftParen 1, word "a" 2, mark .comma 3, mark .rightParen 4, mark .semicolon 5]
where
  word (name : String) (offset : Nat) : Token :=
    { kind := .identifier name, lexeme := name, position := place offset }
  mark (s : Symbol) (offset : Nat) : Token :=
    { kind := .symbol s, lexeme := String.ofList s.text, position := place offset }
  place (offset : Nat) : Position :=
    { offset, line := 1, column := offset + 1 }

def danglingCommaError : ParseError where
  cause := .unexpected [.string, .number, .identifier, .symbol .leftParen]
  token := danglingCommaTokens.mark .rightParen 4

open danglingCommaTokens in
theorem parse_danglingCommaTokens :
    Block.parse danglingCommaTokens = .error danglingCommaError := by
  simp [Block.parse, danglingCommaTokens, danglingCommaError, word, mark, block, isAtBlockEnd,
    statement, expression, binary, binaryRest, postfixed, postfixedRest, arguments, someArguments,
    primary, accept?, only, TokenKind.class, Assignment.ofKind?, Operator.ofKind?, next,
    unexpected, bind, Except.bind]

theorem Block.parse_error_earliest_danglingComma :
    Block.parse danglingCommaTokens = .error danglingCommaError ∧
      ∃ k ≤ 6, danglingCommaError.token =
          danglingCommaTokens[k]?.getD (Token.endAfter danglingCommaTokens.getLast?) ∧
        (∃ us b, Block.parse (danglingCommaTokens.take k ++ us) = .ok b) ∧
        (k < 6 → ∀ us,
          Block.parse (danglingCommaTokens.take (k + 1) ++ us) = .error danglingCommaError) :=
  ⟨parse_danglingCommaTokens, Block.parse_error_earliest parse_danglingCommaTokens⟩

end LiterateFun
