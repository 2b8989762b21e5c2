import LiterateFun.Proofs.Parsing.Rules
import LiterateFun.Proofs.Printing.Tokens

/-!
This module contains what the parser reads from the tokens of printed expressions.
-/

namespace LiterateFun

def Identifier.forgetSpan (x : Identifier) : Identifier :=
  { x with span := {} }

theorem Identifier.forgetSpan_read {x : Identifier} (h : x.id = none) (span : Span) :
    Identifier.forgetSpan { name := x.name, span } = x.forgetSpan := by
  unfold Identifier.forgetSpan
  rw [h]

theorem exists_of_map_kind_enclosed {opening closing : Symbol} {kinds : List TokenKind}
    {ts : List Token} (h : ts.map Token.kind = enclosed opening closing kinds) :
    ∃ t ts₁ t₁, ts = t :: (ts₁ ++ [t₁]) ∧ t.kind = .symbol opening ∧ ts₁.map Token.kind = kinds ∧
      t₁.kind = .symbol closing := by
  unfold enclosed at h
  obtain ⟨t, ts', rfl, hopen, h⟩ := List.map_eq_cons_iff.1 h
  obtain ⟨ts₁, ts₂, rfl, hkinds, h⟩ := List.map_eq_append_iff.1 h
  obtain ⟨t₁, rfl, hclose⟩ := List.map_eq_singleton_iff.1 h
  exact ⟨t, ts₁, t₁, rfl, hopen, hkinds, hclose⟩

theorem Operator.ofKind?_symbol (op : Operator) :
    Operator.ofKind? (.symbol op.symbol) = some op := by
  cases op <;> rfl

namespace Parse

variable {endToken t : Token} {ts rest : List Token}

theorem accept?_of_separated {f : TokenKind → Option α} {kind : TokenKind} {kinds : List TokenKind}
    {items : List (List TokenKind)}
    (hts : ts.map Token.kind = separated ((kind :: kinds) :: items)) (h : f kind = none) :
    accept? f (ts ++ rest) = none := by
  have hfirst : ∃ others, separated ((kind :: kinds) :: items) = kind :: others := by
    cases items with
    | nil => exact ⟨kinds, separated_singleton _⟩
    | cons => exact ⟨_, separated_cons_cons _ _ _⟩
  obtain ⟨others, hothers⟩ := hfirst
  rw [hothers] at hts
  obtain ⟨t, ts, rfl, ht, _⟩ := List.map_eq_cons_iff.1 hts
  exact accept?_of_none ht h

theorem reads_postfixed_of_primary {e : Expr} {kind : TokenKind}
    (h : Reads (primary endToken ts) e (t :: rest)) (ht : t.kind = kind)
    (hend : only (.symbol .leftParen) kind = none) :
    Reads (postfixed endToken ts) e (t :: rest) := by
  apply reads_postfixed h
  apply reads_postfixedRest_nil
  exact accept?_of_none ht hend

theorem reads_binary_of_postfixed {e : Expr} {kind : TokenKind}
    (h : Reads (postfixed endToken ts) e (t :: rest)) (ht : t.kind = kind)
    (hend : endsBinary kind) : Reads (binary endToken ts) e (t :: rest) := by
  simp only [endsBinary, decide_eq_true_eq] at hend
  apply reads_binary h
  apply reads_binaryRest_nil
  exact accept?_of_none ht hend.2

theorem reads_binary_of_primary {e : Expr} {kind : TokenKind}
    (h : Reads (primary endToken ts) e (t :: rest)) (ht : t.kind = kind)
    (hend : endsBinary kind) : Reads (binary endToken ts) e (t :: rest) := by
  apply reads_binary_of_postfixed _ ht hend
  simp only [endsBinary, decide_eq_true_eq] at hend
  exact reads_postfixed_of_primary h ht hend.1

theorem reads_expression_of_binary {e : Expr} {kind : TokenKind}
    (h : Reads (binary endToken ts) e (t :: rest)) (ht : t.kind = kind)
    (hend : endsExpression kind) : Reads (expression endToken ts) e (t :: rest) := by
  simp only [endsExpression, decide_eq_true_eq] at hend
  apply reads_expression h
  exact accept?_of_none ht hend.2

theorem reads_expression_of_primary {e : Expr} {kind : TokenKind}
    (h : Reads (primary endToken ts) e (t :: rest)) (ht : t.kind = kind)
    (hend : endsExpression kind) : Reads (expression endToken ts) e (t :: rest) := by
  apply reads_expression_of_binary _ ht hend
  simp only [endsExpression, decide_eq_true_eq] at hend
  exact reads_binary_of_primary h ht hend.1

variable (endToken)

theorem exists_reads_parens {kinds : List TokenKind} {p : Expr → Prop}
    (hts : ts.map Token.kind = parenTokens kinds)
    (hinner : ∀ ts₁ t₁, ts₁.map Token.kind = kinds → t₁.kind = .symbol .rightParen →
      ∃ e, Reads (expression endToken (ts₁ ++ t₁ :: rest)) e (t₁ :: rest) ∧ p e) :
    ∃ e, Reads (primary endToken (ts ++ rest)) e rest ∧ p e := by
  obtain ⟨t, ts₁, t₁, rfl, hopen, hts₁, hclose⟩ := exists_of_map_kind_enclosed hts
  obtain ⟨e, he, hp⟩ := hinner ts₁ t₁ hts₁ hclose
  refine ⟨e, ?_, hp⟩
  rw [List.cons_append, List.append_assoc]
  exact reads_primary_parens hopen he hclose

theorem exists_reads_arguments {es : List Expr}
    (hts : ts.map Token.kind = separated (Expr.tokensEach es))
    (ht : t.kind = .symbol .rightParen)
    (hsome : es ≠ [] → ∃ es', Reads (someArguments endToken (ts ++ t :: rest)) es' rest ∧
      Expr.relabelList Identifier.forgetSpan es' = Expr.relabelList Identifier.forgetSpan es) :
    ∃ es', Reads (arguments endToken (ts ++ t :: rest)) es' rest ∧
      Expr.relabelList Identifier.forgetSpan es' = Expr.relabelList Identifier.forgetSpan es := by
  cases es with
  | nil =>
    rw [List.map_eq_nil_iff.1 hts]
    refine ⟨[], ?_, rfl⟩
    exact reads_arguments_nil ht
  | cons e es =>
    obtain ⟨es', hes, heq⟩ := hsome (by simp)
    obtain ⟨kinds, hkinds⟩ := e.exists_tokens_eq
    rw [Expr.tokensEach, hkinds] at hts
    refine ⟨es', ?_, heq⟩
    apply reads_arguments _ hes
    exact accept?_of_separated hts rfl

mutual

theorem exists_reads_primary (e : Expr) (h : Writable e.identifiers e.subexpressions)
    {ts : List Token} (rest : List Token) (hts : ts.map Token.kind = e.tokens) :
    ∃ e', Reads (primary endToken (ts ++ rest)) e' rest ∧
      e'.relabel Identifier.forgetSpan = e.relabel Identifier.forgetSpan := by
  match e with
  | .string value =>
    apply exists_reads_parens endToken hts
    intro ts₁ t₁ hts₁ hclose
    obtain ⟨t, rfl, ht⟩ := List.map_eq_singleton_iff.1 hts₁
    refine ⟨.string value, ?_, rfl⟩
    exact reads_expression_of_primary (reads_primary_string ht) hclose rfl
  | .number value =>
    apply exists_reads_parens endToken hts
    intro ts₁ t₁ hts₁ hclose
    obtain ⟨t, rfl, ht⟩ := List.map_eq_singleton_iff.1 hts₁
    refine ⟨.number value, ?_, rfl⟩
    exact reads_expression_of_primary (reads_primary_number ht) hclose rfl
  | .identifier x =>
    apply exists_reads_parens endToken hts
    intro ts₁ t₁ hts₁ hclose
    obtain ⟨t, rfl, ht⟩ := List.map_eq_singleton_iff.1 hts₁
    refine ⟨.identifier { name := x.name, span := t.span }, ?_, ?_⟩
    · exact reads_expression_of_primary (reads_primary_identifier ht) hclose rfl
    · have hx := h.unresolved x (by simp [Expr.identifiers])
      rw [Expr.relabel, Expr.relabel, Identifier.forgetSpan_read hx]
  | .binary op left right =>
    apply exists_reads_parens endToken hts
    intro ts₁ t₁ hts₁ hclose
    obtain ⟨tsl, ts₂, rfl, hleft, hts₂⟩ := List.map_eq_append_iff.1 hts₁
    obtain ⟨t, tsr, rfl, ht, hright⟩ := List.map_eq_cons_iff.1 hts₂
    obtain ⟨l, hl, heql⟩ := exists_reads_primary left (h.mono (by simp [Expr.identifiers])
      (by simp [Expr.subexpressions])) (t :: (tsr ++ t₁ :: rest)) hleft
    obtain ⟨r, hr, heqr⟩ := exists_reads_primary right (h.mono (by simp [Expr.identifiers])
      (by simp [Expr.subexpressions])) (t₁ :: rest) hright
    refine ⟨.binary op l r, ?_, ?_⟩
    · rw [List.append_assoc, List.cons_append]
      apply reads_expression
      · apply reads_binary
        · apply reads_postfixed_of_primary hl
          rw [ht]
          cases op <;> rfl
        · apply reads_binaryRest_cons
          · rw [ht]
            exact Operator.ofKind?_symbol op
          · exact reads_postfixed_of_primary hr hclose rfl
          · apply reads_binaryRest_nil
            exact accept?_of_none hclose rfl
      · exact accept?_of_none hclose rfl
    · rw [Expr.relabel, Expr.relabel, heql, heqr]
  | .call callee args =>
    apply exists_reads_parens endToken hts
    intro ts₁ t₁ hts₁ hclose
    obtain ⟨tsc, ts₂, rfl, hcallee, hts₂⟩ := List.map_eq_append_iff.1 hts₁
    obtain ⟨t, tsa, t₂, rfl, hopen, hargs, hend⟩ := exists_of_map_kind_enclosed hts₂
    obtain ⟨c, hc, heqc⟩ := exists_reads_primary callee (h.mono (by simp [Expr.identifiers])
      (by simp [Expr.subexpressions])) (t :: (tsa ++ t₂ :: t₁ :: rest)) hcallee
    obtain ⟨as, has, heqa⟩ := exists_reads_arguments endToken hargs hend
      fun hne => exists_reads_someArguments args hne (h.mono (by simp [Expr.identifiers])
        (by simp [Expr.subexpressions])) (t₁ :: rest) hargs hend
    refine ⟨.call c as, ?_, ?_⟩
    · rw [List.append_assoc, List.cons_append, List.append_assoc, List.singleton_append]
      -- A call is read by `postfixed`, as the callee ends at the parenthesis of its arguments.
      apply reads_expression_of_binary _ hclose rfl
      apply reads_binary_of_postfixed _ hclose rfl
      apply reads_postfixed hc
      apply reads_postfixedRest_cons hopen has
      apply reads_postfixedRest_nil
      exact accept?_of_none hclose rfl
    · rw [Expr.relabel, Expr.relabel, heqc, heqa]
  | .assign target value =>
    apply exists_reads_parens endToken hts
    intro ts₁ t₁ hts₁ hclose
    obtain ⟨tsx, ts₂, rfl, htarget, hts₂⟩ := List.map_eq_append_iff.1 hts₁
    obtain ⟨t, tsv, rfl, ht, hvalue⟩ := List.map_eq_cons_iff.1 hts₂
    obtain ⟨x, hx, heqx⟩ := exists_reads_primary target (h.mono (by simp [Expr.identifiers])
      (by simp [Expr.subexpressions])) (t :: (tsv ++ t₁ :: rest)) htarget
    obtain ⟨v, hv, heqv⟩ := exists_reads_primary value (h.mono (by simp [Expr.identifiers])
      (by simp [Expr.subexpressions])) (t₁ :: rest) hvalue
    -- The parentheses around the target leave no node, so that an identifier is read.
    obtain ⟨y, rfl⟩ := h.assignable target value (by simp [Expr.subexpressions])
    obtain ⟨z, rfl⟩ : ∃ z, x = .identifier z := by
      cases x <;> simp_all [Expr.relabel]
    refine ⟨.assign (.identifier z) v, ?_, ?_⟩
    · rw [List.append_assoc, List.cons_append]
      apply reads_expression_assignment (a := .existing)
      · exact reads_binary_of_primary hx ht rfl
      · rw [ht]
        rfl
      · exact reads_expression_of_primary hv hclose rfl
    · simp only [Expr.relabel] at heqx ⊢
      rw [heqx, heqv]
  | .declare x value =>
    apply exists_reads_parens endToken hts
    intro ts₁ t₁ hts₁ hclose
    obtain ⟨t, ts₂, rfl, hx, hts₂⟩ := List.map_eq_cons_iff.1 hts₁
    obtain ⟨t₂, tsv, rfl, ht, hvalue⟩ := List.map_eq_cons_iff.1 hts₂
    obtain ⟨v, hv, heqv⟩ := exists_reads_primary value (h.mono (by simp [Expr.identifiers])
      (by simp [Expr.subexpressions])) (t₁ :: rest) hvalue
    refine ⟨.declare { name := x.name, span := t.span } v, ?_, ?_⟩
    · apply reads_expression_assignment (a := .new)
      · exact reads_binary_of_primary (reads_primary_identifier hx) ht rfl
      · rw [ht]
        rfl
      · exact reads_expression_of_primary hv hclose rfl
    · have hx := h.unresolved x (by simp [Expr.identifiers])
      rw [Expr.relabel, Expr.relabel, Identifier.forgetSpan_read hx, heqv]

theorem exists_reads_someArguments (es : List Expr) (hne : es ≠ [])
    (h : Writable (Expr.identifiersList es) (Expr.subexpressionsList es)) {t : Token}
    {ts : List Token} (rest : List Token)
    (hts : ts.map Token.kind = separated (Expr.tokensEach es))
    (ht : t.kind = .symbol .rightParen) :
    ∃ es', Reads (someArguments endToken (ts ++ t :: rest)) es' rest ∧
      Expr.relabelList Identifier.forgetSpan es' = Expr.relabelList Identifier.forgetSpan es := by
  match es with
  | [] => contradiction
  | [e] =>
    rw [Expr.tokensEach, Expr.tokensEach, separated_singleton] at hts
    obtain ⟨e', he, heq⟩ := exists_reads_primary e (h.mono (by simp [Expr.identifiersList])
      (by simp [Expr.subexpressionsList])) (t :: rest) hts
    refine ⟨[e'], ?_, ?_⟩
    · exact reads_someArguments_last (reads_expression_of_primary he ht rfl) ht
    · rw [Expr.relabelList, Expr.relabelList, heq]
      rfl
  | e :: e₁ :: es =>
    rw [Expr.tokensEach, Expr.tokensEach, separated_cons_cons] at hts
    obtain ⟨ts₁, ts₂, rfl, hts₁, hts₂⟩ := List.map_eq_append_iff.1 hts
    obtain ⟨t₁, ts₃, rfl, hcomma, hts₃⟩ := List.map_eq_cons_iff.1 hts₂
    obtain ⟨e', he, heq⟩ := exists_reads_primary e (h.mono (by simp [Expr.identifiersList])
      (by simp [Expr.subexpressionsList])) (t₁ :: (ts₃ ++ t :: rest)) hts₁
    obtain ⟨es', hes, heqs⟩ := exists_reads_someArguments (e₁ :: es) (by simp)
      (h.mono (by simp [Expr.identifiersList]) (by simp [Expr.subexpressionsList])) rest hts₃ ht
    refine ⟨e' :: es', ?_, ?_⟩
    · rw [List.append_assoc, List.cons_append]
      exact reads_someArguments_cons (reads_expression_of_primary he hcomma rfl) hcomma hes
    · rw [Expr.relabelList, heq, heqs]
      rfl

end

end Parse

end LiterateFun
