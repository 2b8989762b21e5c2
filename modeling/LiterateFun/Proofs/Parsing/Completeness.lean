import LiterateFun.Proofs.Parsing.Grammar
import LiterateFun.Proofs.Parsing.Rules

/-!
This module contains the completeness of the parser: it reads all that the grammar derives.

An operand is read before it is known whether an operation or a call goes on after it. The
statements about operands are therefore about any way to go on with the tree of the operand as the
left side.
-/

namespace LiterateFun

theorem Operator.ofKind?_of_text {op : Operator} {s : Symbol} (h : s.text = op.text.toList) :
    Operator.ofKind? (.symbol s) = some op := by
  revert h
  cases s <;> cases op <;> decide

theorem Parse.only_leftParen_of_text {op : Operator} {s : Symbol} (h : s.text = op.text.toList) :
    Parse.only (.symbol .leftParen) (.symbol s) = none := by
  revert h
  cases s <;> cases op <;> decide

namespace Grammar

open Parse

variable {endToken : Token}

def startsExpression : TokenKind → Bool
  | .string _ => true
  | .number _ => true
  | .identifier _ => true
  | .symbol .leftParen => true
  | _ => false

theorem startsStatement_of_startsExpression {kind : TokenKind} (h : startsExpression kind) :
    startsStatement kind := by
  unfold startsExpression at h
  split at h
  · rfl
  · rfl
  · rfl
  · rfl
  · cases h

theorem only_of_startsExpression {kind : TokenKind} (h : startsExpression kind) {c : TokenClass}
    (hc : c ∈ [.symbol .rightParen, .keyword .if, .keyword .return, .symbol .backslash]) :
    only c kind = none := by
  have hne : kind.class ≠ c := by
    rintro rfl
    unfold startsExpression at h
    split at h
    · simp [TokenKind.class] at hc
    · simp [TokenKind.class] at hc
    · simp [TokenKind.class] at hc
    · simp [TokenKind.class] at hc
    · cases h
  exact if_neg hne

def StartsWith (p : TokenKind → Bool) (ts : List Token) : Prop :=
  ∃ t ts₁, ts = t :: ts₁ ∧ p t.kind

theorem StartsWith.append {p : TokenKind → Bool} {ts : List Token} (h : StartsWith p ts)
    (rest : List Token) : StartsWith p (ts ++ rest) := by
  obtain ⟨t, ts₁, rfl, ht⟩ := h
  exact ⟨t, ts₁ ++ rest, rfl, ht⟩

theorem IsPrimary.startsWith {ts : List Token} {e : Expr} (h : IsPrimary ts e) :
    StartsWith startsExpression ts := by
  cases h with
  | string h => exact ⟨_, _, rfl, by rw [h]; rfl⟩
  | number h => exact ⟨_, _, rfl, by rw [h]; rfl⟩
  | identifier h => exact ⟨_, _, rfl, by rw [h.1]; rfl⟩
  | parens hopen _ _ => exact ⟨_, _, rfl, by rw [hopen]; rfl⟩

theorem IsPostfixed.startsWith {ts : List Token} {e : Expr} (h : IsPostfixed ts e) :
    StartsWith startsExpression ts := by
  cases h with
  | primary h => exact h.startsWith
  | call hcallee _ _ _ => exact (IsPostfixed.startsWith hcallee).append _

theorem IsBinary.startsWith {ts : List Token} {e : Expr} (h : IsBinary ts e) :
    StartsWith startsExpression ts := by
  cases h with
  | postfixed h => exact h.startsWith
  | operation hleft _ _ _ => exact (IsBinary.startsWith hleft).append _

theorem IsExpression.startsWith {ts : List Token} {e : Expr} (h : IsExpression ts e) :
    StartsWith startsExpression ts := by
  cases h with
  | binary h => exact h.startsWith
  | assign hx _ _ => exact hx.startsWith.append _
  | declare hx _ _ => exact hx.startsWith.append _

theorem IsSomeArguments.startsWith {ts : List Token} {es : List Expr} (h : IsSomeArguments ts es) :
    StartsWith startsExpression ts := by
  cases h with
  | last h => exact h.startsWith
  | cons he _ _ => exact he.startsWith.append _

theorem IsStatement.startsWith {ts : List Token} {s : Statement} (h : IsStatement ts s) :
    StartsWith startsStatement ts := by
  cases h with
  | conditional ht _ => exact ⟨_, _, rfl, by rw [ht]; rfl⟩
  | declaration ht _ => exact ⟨_, _, rfl, by rw [ht]; rfl⟩
  | «return» ht _ _ => exact ⟨_, _, rfl, by rw [ht]; rfl⟩
  | expression h _ =>
    obtain ⟨t, ts₁, rfl, ht⟩ := h.startsWith
    exact ⟨t, _, rfl, startsStatement_of_startsExpression ht⟩

theorem reads_identifier_of_denotes {t : Token} {rest : List Token} {x : Identifier}
    (h : t.Denotes x) :
    Reads (identifier endToken (t :: rest)) x rest := by
  rw [h.2]
  exact reads_identifier h.1

mutual

theorem IsExpression.reads {ts rest : List Token} {t : Token} {e : Expr} (h : IsExpression ts e)
    (ht : endsExpression t.kind) :
    Reads (expression endToken (ts ++ t :: rest)) e (t :: rest) := by
  match h with
  | .binary h =>
    simp only [endsExpression, endsBinary, decide_eq_true_eq] at ht
    apply reads_expression
    · exact h.reads ht.1.1 (reads_binaryRest_nil (accept?_of_none rfl ht.1.2))
    · exact accept?_of_none rfl ht.2
  | .assign hx hassign hvalue =>
    rw [List.append_assoc, List.cons_append]
    apply reads_expression_assignment (a := .existing)
    · apply hx.reads
      · rw [hassign]
        rfl
      · exact reads_binaryRest_nil (accept?_of_none hassign rfl)
    · rw [hassign]
      rfl
    · exact hvalue.reads ht
  | .declare hx hassign hvalue =>
    rw [List.append_assoc, List.cons_append]
    apply reads_expression_assignment (a := .new)
    · apply hx.reads
      · rw [hassign]
        rfl
      · exact reads_binaryRest_nil (accept?_of_none hassign rfl)
    · rw [hassign]
      rfl
    · exact hvalue.reads ht

theorem IsBinary.reads {ts rest rest' : List Token} {t : Token} {e value : Expr}
    (h : IsBinary ts e) (ht : only (.symbol .leftParen) t.kind = none)
    (hrest : Reads (binaryRest endToken e (t :: rest)) value rest') :
    Reads (binary endToken (ts ++ t :: rest)) value rest' := by
  match h with
  | .postfixed h =>
    apply reads_binary _ hrest
    apply h.reads
    exact reads_postfixedRest_nil (accept?_of_none rfl ht)
  | .operation hleft hop hsymbol hright =>
    rw [List.append_assoc, List.cons_append]
    apply hleft.reads
    · rw [hop]
      exact only_leftParen_of_text hsymbol
    · apply reads_binaryRest_cons
      · rw [hop]
        exact Operator.ofKind?_of_text hsymbol
      · apply hright.reads
        exact reads_postfixedRest_nil (accept?_of_none rfl ht)
      · exact hrest

theorem IsPostfixed.reads {ts rest rest' : List Token} {e value : Expr} (h : IsPostfixed ts e)
    (hrest : Reads (postfixedRest endToken e rest) value rest') :
    Reads (postfixed endToken (ts ++ rest)) value rest' := by
  match h with
  | .primary h => exact reads_postfixed h.reads hrest
  | .call hcallee hopen hargs hclose =>
    rw [List.append_assoc, List.cons_append, List.append_assoc]
    apply hcallee.reads
    apply reads_postfixedRest_cons hopen _ hrest
    exact hargs.reads hclose

theorem IsArguments.reads {ts rest : List Token} {t : Token} {es : List Expr}
    (h : IsArguments ts es) (ht : t.kind = .symbol .rightParen) :
    Reads (arguments endToken (ts ++ t :: rest)) es rest := by
  match h with
  | .none => exact reads_arguments_nil ht
  | .some h =>
    apply reads_arguments _ (h.reads ht)
    obtain ⟨t₁, ts₁, rfl, hstart⟩ := h.startsWith
    exact accept?_of_none rfl (only_of_startsExpression hstart (by simp))

theorem IsSomeArguments.reads {ts rest : List Token} {t : Token} {es : List Expr}
    (h : IsSomeArguments ts es) (ht : t.kind = .symbol .rightParen) :
    Reads (someArguments endToken (ts ++ t :: rest)) es rest := by
  match h with
  | .last h =>
    apply reads_someArguments_last _ ht
    exact h.reads (by rw [ht]; rfl)
  | .cons he hcomma hes =>
    rw [List.append_assoc, List.cons_append]
    apply reads_someArguments_cons _ hcomma (hes.reads ht)
    exact he.reads (by rw [hcomma]; rfl)

theorem IsPrimary.reads {ts rest : List Token} {e : Expr} (h : IsPrimary ts e) :
    Reads (primary endToken (ts ++ rest)) e rest := by
  match h with
  | .string h => exact reads_primary_string h
  | .number h => exact reads_primary_number h
  | .identifier h =>
    rw [h.2]
    exact reads_primary_identifier h.1
  | .parens hopen h hclose =>
    rw [List.cons_append, List.append_assoc]
    apply reads_primary_parens hopen _ hclose
    exact h.reads (by rw [hclose]; rfl)

end

theorem IsSomeParameters.reads {ts rest : List Token} {t : Token} {xs : List Identifier}
    (h : IsSomeParameters ts xs) (ht : t.kind = .symbol .rightBrace) :
    Reads (someParameters endToken (ts ++ t :: rest)) xs rest := by
  induction h with
  | last h => exact reads_someParameters_last (reads_identifier_of_denotes h) ht
  | cons h hcomma _ ih => exact reads_someParameters_cons (reads_identifier_of_denotes h) hcomma ih

theorem IsParameters.reads {ts rest : List Token} {xs : List Identifier} (h : IsParameters ts xs) :
    Reads (parameters endToken (ts ++ rest)) xs rest := by
  cases h with
  | none hopen hclose => exact reads_parameters_nil hopen hclose
  | some hopen h hclose =>
    rw [List.cons_append, List.append_assoc]
    apply reads_parameters hopen _ (h.reads hclose)
    cases h with
    | last h => exact accept?_of_none h.1 rfl
    | cons h _ _ => exact accept?_of_none h.1 rfl

theorem IsName.reads_className {ts rest : List Token} {x : Identifier} (h : IsName ts x) :
    Reads (className endToken (ts ++ rest)) x rest := by
  cases h with
  | mk hopen h hclose => exact Parse.reads_className hopen (reads_identifier_of_denotes h) hclose

theorem IsName.reads_callableName {ts rest : List Token} {x : Identifier} (h : IsName ts x) :
    Reads (callableName endToken (ts ++ rest)) (none, x) rest := by
  cases h with
  | mk hopen h hclose =>
    exact reads_callableName_function hopen (reads_identifier_of_denotes h) hclose

theorem IsMethodName.reads {ts rest : List Token} {owner name : Identifier}
    (h : IsMethodName ts owner name) :
    Reads (callableName endToken (ts ++ rest)) (some owner, name) rest := by
  cases h with
  | mk hopen howner hcolon hname hclose =>
    exact reads_callableName_method hopen (reads_identifier_of_denotes howner) hcolon
      (reads_identifier_of_denotes hname) hclose

theorem IsBlock.accept?_else {ts rest : List Token} {b : Block} (h : IsBlock ts b)
    (hrest : isAtBlockEnd rest) : accept? (only (.keyword .else)) (ts ++ rest) = none := by
  cases h with
  | nil => exact accept?_else_of_isAtBlockEnd hrest
  | cons hs _ =>
    obtain ⟨t, ts₁, rfl, hstart⟩ := hs.startsWith
    exact accept?_else_of_starts hstart

theorem IsBraced.exists_cons {ts : List Token} {b : Block} (h : IsBraced ts b) :
    ∃ t ts₁, ts = t :: ts₁ ∧ t.kind = .symbol .leftBrace := by
  cases h with
  | mk hopen _ _ => exact ⟨_, _, rfl, hopen⟩

theorem IsExpression.reads_condition {ts₁ ts₂ rest : List Token} {e : Expr} {b : Block}
    (h : IsExpression ts₁ e) (hb : IsBraced ts₂ b) :
    Reads (expression endToken (ts₁ ++ (ts₂ ++ rest))) e (ts₂ ++ rest) := by
  obtain ⟨t, ts, rfl, hopen⟩ := hb.exists_cons
  exact h.reads (by rw [hopen]; rfl)

mutual

theorem IsBlock.reads {ts rest : List Token} {b : Block} (h : IsBlock ts b)
    (hrest : isAtBlockEnd rest) : Reads (block endToken (ts ++ rest)) b rest := by
  match h with
  | .nil => exact reads_block_nil hrest
  | .cons hs hb =>
    rw [List.append_assoc]
    apply reads_block_cons
    · obtain ⟨t, ts₁, rfl, hstart⟩ := hs.startsWith
      exact not_isAtBlockEnd_of_starts hstart
    · exact hs.reads (hb.accept?_else hrest)
    · exact hb.reads hrest

theorem IsBraced.reads {ts rest : List Token} {b : Block} (h : IsBraced ts b) :
    Reads (braced endToken (ts ++ rest)) b rest := by
  match h with
  | .mk hopen hb hclose =>
    rw [List.cons_append, List.append_assoc]
    apply reads_braced hopen _ hclose
    exact hb.reads (isAtBlockEnd_of_rightBrace hclose)

theorem IsStatement.reads {ts rest : List Token} {s : Statement} (h : IsStatement ts s)
    (hrest : accept? (only (.keyword .else)) rest = none) :
    Reads (statement endToken (ts ++ rest)) s rest := by
  match h with
  | .conditional ht h => exact reads_statement_conditional ht (h.reads hrest)
  | .declaration ht h => exact reads_statement_declaration ht (h.reads ht)
  | .return ht h hclose =>
    rw [List.cons_append, List.append_assoc]
    apply reads_statement_return ht _ hclose
    exact h.reads (by rw [hclose]; rfl)
  | @IsStatement.expression ts t value h hclose =>
    have hvalue : Reads (expression endToken (ts ++ t :: rest)) value (t :: rest) :=
      h.reads (by rw [hclose]; rfl)
    obtain ⟨t, ts₁, rfl, hstart⟩ := h.startsWith
    rw [List.append_assoc]
    apply reads_statement_expression
    · exact only_of_startsExpression hstart (by simp)
    · exact only_of_startsExpression hstart (by simp)
    · intro hbackslash
      rw [hbackslash] at hstart
      cases hstart
    · exact hvalue
    · exact hclose

theorem IsConditional.reads {ts rest : List Token} {s : Statement} (h : IsConditional ts s)
    (hrest : accept? (only (.keyword .else)) rest = none) :
    Reads (conditional endToken (ts ++ rest)) s rest := by
  match h with
  | .plain hcondition hconsequent =>
    rw [List.append_assoc]
    exact reads_conditional (hcondition.reads_condition hconsequent) hconsequent.reads hrest
  | @IsConditional.otherwise _ _ ts _ _ _ alternative hcondition hconsequent helse halternative =>
    rw [List.append_assoc, List.append_assoc]
    have hread : Reads (braced endToken (ts ++ rest)) alternative rest := halternative.reads
    obtain ⟨t, ts, rfl, hopen⟩ := halternative.exists_cons
    exact reads_conditional_else (hcondition.reads_condition hconsequent) hconsequent.reads helse
      hopen hread
  | .elseIf hcondition hconsequent helse hif h =>
    rw [List.append_assoc, List.append_assoc]
    exact reads_conditional_elseIf (hcondition.reads_condition hconsequent) hconsequent.reads helse
      hif (h.reads hrest)

theorem IsDeclaration.reads {ts rest : List Token} {t : Token} {d : Declaration}
    (h : IsDeclaration ts d) (ht : t.kind = .symbol .backslash) :
    Reads (declaration endToken (t :: (ts ++ rest))) d rest := by
  match h with
  | .class hword hname hbody =>
    rw [List.cons_append, List.append_assoc]
    exact reads_declaration_class ht (reads_identifier hword) rfl hname.reads_className hbody.reads
  | .function hword hname hxs hbody =>
    rw [List.cons_append, List.append_assoc, List.append_assoc]
    exact reads_declaration_fun ht (reads_identifier hword) rfl hname.reads_callableName hxs.reads
      hbody.reads
  | .method hword hname hxs hbody =>
    rw [List.cons_append, List.append_assoc, List.append_assoc]
    exact reads_declaration_fun ht (reads_identifier hword) rfl hname.reads hxs.reads hbody.reads

end

end Grammar

end LiterateFun
