import LiterateFun.Proofs.Printing.Expression

/-!
This module contains the theorem that parsing undoes printing.
-/

namespace LiterateFun

def Block.forgetSpans (b : Block) : Block :=
  relabelStatements Identifier.forgetSpan b

theorem Declaration.exists_tokens_eq (d : Declaration) :
    ∃ kinds, d.tokens = .symbol .backslash :: kinds := by
  cases d <;> exact ⟨_, rfl⟩

theorem Statement.exists_tokens_eq (s : Statement) :
    ∃ kind kinds, s.tokens = kind :: kinds ∧ Parse.startsStatement kind := by
  cases s with
  | expression value =>
    obtain ⟨kinds, hkinds⟩ := value.exists_tokens_eq
    rw [Statement.tokens, hkinds]
    exact ⟨.symbol .leftParen, _, rfl, rfl⟩
  | «return» value => exact ⟨.keyword .return, _, rfl, rfl⟩
  | conditional _ _ alternative =>
    cases alternative <;> exact ⟨.keyword .if, _, rfl, rfl⟩
  | declaration d =>
    obtain ⟨kinds, hkinds⟩ := d.exists_tokens_eq
    rw [Statement.tokens, hkinds]
    exact ⟨.symbol .backslash, _, rfl, rfl⟩

namespace Parse

variable {t : Token} {ts rest : List Token} (endToken : Token)

theorem exists_reads_someParameters {xs : List Identifier} (hne : xs ≠ [])
    (h : ∀ x ∈ xs, x.id = none) (hts : ts.map Token.kind = separated (xs.map fun x => [x.token]))
    (ht : t.kind = .symbol .rightBrace) :
    ∃ xs', Reads (someParameters endToken (ts ++ t :: rest)) xs' rest ∧
      xs'.map Identifier.forgetSpan = xs.map Identifier.forgetSpan := by
  induction xs generalizing ts with
  | nil => contradiction
  | cons x xs ih =>
    have hx := h x (by simp)
    cases xs with
    | nil =>
      rw [List.map_singleton, separated_singleton] at hts
      obtain ⟨t₁, rfl, ht₁⟩ := List.map_eq_singleton_iff.1 hts
      refine ⟨[{ name := x.name, span := t₁.span }], ?_, ?_⟩
      · exact reads_someParameters_last (reads_identifier ht₁) ht
      · rw [List.map_singleton, List.map_singleton, Identifier.forgetSpan_read hx]
    | cons y xs =>
      rw [List.map_cons, List.map_cons, separated_cons_cons] at hts
      obtain ⟨t₁, ts₁, rfl, ht₁, hts₁⟩ := List.map_eq_cons_iff.1 hts
      obtain ⟨t₂, ts₂, rfl, hcomma, hts₂⟩ := List.map_eq_cons_iff.1 hts₁
      obtain ⟨xs', hxs, heq⟩ := ih (by simp) (fun z hz => h z (List.mem_cons_of_mem x hz)) hts₂
      refine ⟨{ name := x.name, span := t₁.span } :: xs', ?_, ?_⟩
      · exact reads_someParameters_cons (reads_identifier ht₁) hcomma hxs
      · rw [List.map_cons, heq, Identifier.forgetSpan_read hx]
        rfl

theorem exists_reads_parameters {xs : List Identifier} (h : ∀ x ∈ xs, x.id = none)
    (rest : List Token) (hts : ts.map Token.kind = parameterTokens xs) :
    ∃ xs', Reads (parameters endToken (ts ++ rest)) xs' rest ∧
      xs'.map Identifier.forgetSpan = xs.map Identifier.forgetSpan := by
  obtain ⟨t, ts₁, t₁, rfl, hopen, hts₁, hclose⟩ := exists_of_map_kind_enclosed hts
  rw [List.cons_append, List.append_assoc, List.singleton_append]
  cases xs with
  | nil =>
    rw [List.map_eq_nil_iff.1 hts₁]
    refine ⟨[], ?_, rfl⟩
    exact reads_parameters_nil hopen hclose
  | cons x xs =>
    obtain ⟨xs', hxs, heq⟩ := exists_reads_someParameters endToken (by simp) h hts₁ hclose
    refine ⟨xs', ?_, heq⟩
    apply reads_parameters hopen _ hxs
    exact accept?_of_separated hts₁ rfl

theorem exists_reads_className {x : Identifier} (hx : x.id = none) (rest : List Token)
    (hts : ts.map Token.kind = braceTokens [x.token]) :
    ∃ x', Reads (className endToken (ts ++ rest)) x' rest ∧ x'.forgetSpan = x.forgetSpan := by
  obtain ⟨t, ts₁, t₁, rfl, hopen, hts₁, hclose⟩ := exists_of_map_kind_enclosed hts
  obtain ⟨t₂, rfl, ht₂⟩ := List.map_eq_singleton_iff.1 hts₁
  refine ⟨{ name := x.name, span := t₂.span }, ?_, Identifier.forgetSpan_read hx _⟩
  exact reads_className hopen (reads_identifier ht₂) hclose

theorem exists_reads_functionName {x : Identifier} (hx : x.id = none) (rest : List Token)
    (hts : ts.map Token.kind = braceTokens [x.token]) :
    ∃ x', Reads (callableName endToken (ts ++ rest)) (none, x') rest ∧
      x'.forgetSpan = x.forgetSpan := by
  obtain ⟨t, ts₁, t₁, rfl, hopen, hts₁, hclose⟩ := exists_of_map_kind_enclosed hts
  obtain ⟨t₂, rfl, ht₂⟩ := List.map_eq_singleton_iff.1 hts₁
  refine ⟨{ name := x.name, span := t₂.span }, ?_, Identifier.forgetSpan_read hx _⟩
  exact reads_callableName_function hopen (reads_identifier ht₂) hclose

theorem exists_reads_methodName {x y : Identifier} (hx : x.id = none) (hy : y.id = none)
    (rest : List Token)
    (hts : ts.map Token.kind = braceTokens [x.token, .symbol .colonColon, y.token]) :
    ∃ x' y', Reads (callableName endToken (ts ++ rest)) (some x', y') rest ∧
      x'.forgetSpan = x.forgetSpan ∧ y'.forgetSpan = y.forgetSpan := by
  obtain ⟨t, ts₁, t₁, rfl, hopen, hts₁, hclose⟩ := exists_of_map_kind_enclosed hts
  obtain ⟨t₂, ts₂, rfl, ht₂, hts₂⟩ := List.map_eq_cons_iff.1 hts₁
  obtain ⟨t₃, ts₃, rfl, hcolon, hts₃⟩ := List.map_eq_cons_iff.1 hts₂
  obtain ⟨t₄, rfl, ht₄⟩ := List.map_eq_singleton_iff.1 hts₃
  refine ⟨{ name := x.name, span := t₂.span }, { name := y.name, span := t₄.span }, ?_,
    Identifier.forgetSpan_read hx _, Identifier.forgetSpan_read hy _⟩
  exact reads_callableName_method hopen (reads_identifier ht₂) hcolon (reads_identifier ht₄) hclose

theorem exists_reads_braced {kinds : List TokenKind} {p : Block → Prop} (rest : List Token)
    (hts : ts.map Token.kind = braceTokens kinds)
    (hinner : ∀ {ts rest}, ts.map Token.kind = kinds → isAtBlockEnd rest →
      ∃ b, Reads (block endToken (ts ++ rest)) b rest ∧ p b) :
    ∃ b, Reads (braced endToken (ts ++ rest)) b rest ∧ p b := by
  obtain ⟨t, ts₁, t₁, rfl, hopen, hts₁, hclose⟩ := exists_of_map_kind_enclosed hts
  have hend : isAtBlockEnd (t₁ :: rest) := isAtBlockEnd_of_rightBrace hclose
  obtain ⟨b, hb, hp⟩ := hinner hts₁ hend
  refine ⟨b, ?_, hp⟩
  rw [List.cons_append, List.append_assoc]
  exact reads_braced hopen hb hclose

theorem accept?_else_of_block {b : Block} (hts : ts.map Token.kind = blockTokens b)
    (hrest : isAtBlockEnd rest) : accept? (only (.keyword .else)) (ts ++ rest) = none := by
  cases b with
  | nil =>
    rw [List.map_eq_nil_iff.1 hts]
    exact accept?_else_of_isAtBlockEnd hrest
  | cons s b =>
    obtain ⟨kind, kinds, hkinds, hstart⟩ := s.exists_tokens_eq
    rw [blockTokens, hkinds] at hts
    obtain ⟨t, ts, rfl, rfl, _⟩ := List.map_eq_cons_iff.1 hts
    exact accept?_else_of_starts hstart

theorem exists_reads_condition (e : Expr) (h : Writable e.identifiers e.subexpressions)
    {ts₁ ts₂ : List Token} {kinds : List TokenKind} (rest : List Token)
    (hts₁ : ts₁.map Token.kind = e.tokens) (hts₂ : ts₂.map Token.kind = braceTokens kinds) :
    ∃ e', Reads (expression endToken (ts₁ ++ (ts₂ ++ rest))) e' (ts₂ ++ rest) ∧
      e'.relabel Identifier.forgetSpan = e.relabel Identifier.forgetSpan := by
  obtain ⟨t, ts, rfl, hopen, _⟩ := List.map_eq_cons_iff.1 hts₂
  obtain ⟨e', he, heq⟩ := exists_reads_primary endToken e h (t :: (ts ++ rest)) hts₁
  refine ⟨e', ?_, heq⟩
  exact reads_expression_of_primary he hopen rfl

mutual

theorem exists_reads_statement (s : Statement) (h : Writable s.identifiers s.subexpressions)
    {ts rest : List Token} (hts : ts.map Token.kind = s.tokens)
    (hrest : accept? (only (.keyword .else)) rest = none) :
    ∃ s', Reads (statement endToken (ts ++ rest)) s' rest ∧
      s'.relabel Identifier.forgetSpan = s.relabel Identifier.forgetSpan := by
  match s with
  | .expression value =>
    obtain ⟨tsv, ts₁, rfl, hvalue, hts₁⟩ := List.map_eq_append_iff.1 hts
    obtain ⟨t, rfl, ht⟩ := List.map_eq_singleton_iff.1 hts₁
    obtain ⟨v, hv, heq⟩ := exists_reads_primary endToken value h (t :: rest) hvalue
    refine ⟨.expression v, ?_, ?_⟩
    · obtain ⟨kinds, hkinds⟩ := value.exists_tokens_eq
      rw [hkinds] at hvalue
      obtain ⟨t₁, tsv, rfl, hopen, _⟩ := List.map_eq_cons_iff.1 hvalue
      rw [List.append_assoc]
      apply reads_statement_expression
      · rw [hopen]
        rfl
      · rw [hopen]
        rfl
      · rw [hopen]
        decide
      · exact reads_expression_of_primary hv ht rfl
      · exact ht
    · rw [Statement.relabel, Statement.relabel, heq]
  | .return value =>
    obtain ⟨t, ts₁, rfl, ht, hts₁⟩ := List.map_eq_cons_iff.1 hts
    obtain ⟨tsv, ts₂, rfl, hvalue, hts₂⟩ := List.map_eq_append_iff.1 hts₁
    obtain ⟨t₁, rfl, ht₁⟩ := List.map_eq_singleton_iff.1 hts₂
    obtain ⟨v, hv, heq⟩ := exists_reads_primary endToken value h (t₁ :: rest) hvalue
    refine ⟨.return v, ?_, ?_⟩
    · rw [List.cons_append, List.append_assoc]
      exact reads_statement_return ht (reads_expression_of_primary hv ht₁ rfl) ht₁
    · rw [Statement.relabel, Statement.relabel, heq]
  | .conditional condition consequent none =>
    obtain ⟨t, ts₁, rfl, ht, hts₁⟩ := List.map_eq_cons_iff.1 hts
    obtain ⟨tsc, ts₂, rfl, hcondition, hts₂⟩ := List.map_eq_append_iff.1 hts₁
    obtain ⟨b, hb, heqb⟩ := exists_reads_braced endToken rest hts₂ (exists_reads_block consequent
      (h.mono (by simp [Statement.identifiers]) (by simp [Statement.subexpressions])))
    obtain ⟨c, hc, heqc⟩ := exists_reads_condition endToken condition
      (h.mono (by simp [Statement.identifiers]) (by simp [Statement.subexpressions])) rest
      hcondition hts₂
    refine ⟨.conditional c b none, ?_, ?_⟩
    · rw [List.cons_append, List.append_assoc]
      -- Only here it matters what follows: an `else` would belong to this statement.
      apply reads_statement_conditional ht
      exact reads_conditional hc hb hrest
    · rw [Statement.relabel, Statement.relabel, heqc, heqb]
  | .conditional condition consequent (some alternative) =>
    obtain ⟨t, ts₁, rfl, ht, hts₁⟩ := List.map_eq_cons_iff.1 hts
    obtain ⟨tsc, ts₂, rfl, hcondition, hts₂⟩ := List.map_eq_append_iff.1 hts₁
    obtain ⟨tsb, ts₃, rfl, hconsequent, hts₃⟩ := List.map_eq_append_iff.1 hts₂
    obtain ⟨t₁, tsa, rfl, helse, halternative⟩ := List.map_eq_cons_iff.1 hts₃
    obtain ⟨a, ha, heqa⟩ := exists_reads_braced endToken rest halternative
      (exists_reads_block alternative
        (h.mono (by simp [Statement.identifiers]) (by simp [Statement.subexpressions])))
    obtain ⟨b, hb, heqb⟩ := exists_reads_braced endToken (t₁ :: (tsa ++ rest)) hconsequent
      (exists_reads_block consequent
        (h.mono (by simp [Statement.identifiers]) (by simp [Statement.subexpressions])))
    obtain ⟨c, hc, heqc⟩ := exists_reads_condition endToken condition
      (h.mono (by simp [Statement.identifiers]) (by simp [Statement.subexpressions]))
      (t₁ :: (tsa ++ rest)) hcondition hconsequent
    obtain ⟨t₂, tsa, rfl, hopen, _⟩ := List.map_eq_cons_iff.1 halternative
    refine ⟨.conditional c b (some a), ?_, ?_⟩
    · rw [List.cons_append, List.append_assoc, List.append_assoc, List.cons_append]
      apply reads_statement_conditional ht
      exact reads_conditional_else hc hb helse hopen ha
    · rw [Statement.relabel, Statement.relabel, heqc, heqb, heqa]
  | .declaration d =>
    obtain ⟨d', hd, heq⟩ := exists_reads_declaration d h rest hts
    refine ⟨.declaration d', ?_, ?_⟩
    · obtain ⟨kinds, hkinds⟩ := d.exists_tokens_eq
      rw [Statement.tokens, hkinds] at hts
      obtain ⟨t, ts, rfl, ht, _⟩ := List.map_eq_cons_iff.1 hts
      exact reads_statement_declaration ht hd
    · rw [Statement.relabel, Statement.relabel, heq]

theorem exists_reads_declaration (d : Declaration) (h : Writable d.identifiers d.subexpressions)
    {ts : List Token} (rest : List Token) (hts : ts.map Token.kind = d.tokens) :
    ∃ d', Reads (declaration endToken (ts ++ rest)) d' rest ∧
      d'.relabel Identifier.forgetSpan = d.relabel Identifier.forgetSpan := by
  match d with
  | .class name body =>
    obtain ⟨t, ts₁, rfl, ht, hts₁⟩ := List.map_eq_cons_iff.1 hts
    obtain ⟨t₁, ts₂, rfl, hword, hts₂⟩ := List.map_eq_cons_iff.1 hts₁
    obtain ⟨tsn, tsb, rfl, hname, hbody⟩ := List.map_eq_append_iff.1 hts₂
    obtain ⟨n, hn, heqn⟩ := exists_reads_className endToken
      (h.unresolved name (by simp [Declaration.identifiers])) (tsb ++ rest) hname
    obtain ⟨b, hb, heqb⟩ := exists_reads_braced endToken rest hbody (exists_reads_block body
      (h.mono (by simp [Declaration.identifiers]) (by simp [Declaration.subexpressions])))
    refine ⟨.class n b, ?_, ?_⟩
    · rw [List.cons_append, List.cons_append, List.append_assoc]
      exact reads_declaration_class ht (reads_identifier hword) rfl hn hb
    · rw [Declaration.relabel, Declaration.relabel, heqn, heqb]
  | .function name parameters body =>
    obtain ⟨t, ts₁, rfl, ht, hts₁⟩ := List.map_eq_cons_iff.1 hts
    obtain ⟨t₁, ts₂, rfl, hword, hts₂⟩ := List.map_eq_cons_iff.1 hts₁
    obtain ⟨tsn, ts₃, rfl, hname, hts₃⟩ := List.map_eq_append_iff.1 hts₂
    obtain ⟨tsp, tsb, rfl, hparameters, hbody⟩ := List.map_eq_append_iff.1 hts₃
    obtain ⟨n, hn, heqn⟩ := exists_reads_functionName endToken
      (h.unresolved name (by simp [Declaration.identifiers])) (tsp ++ (tsb ++ rest)) hname
    obtain ⟨xs, hxs, heqx⟩ := exists_reads_parameters endToken
      (fun x hx => h.unresolved x (by simp [Declaration.identifiers, hx])) (tsb ++ rest) hparameters
    obtain ⟨b, hb, heqb⟩ := exists_reads_braced endToken rest hbody (exists_reads_block body
      (h.mono (by simp [Declaration.identifiers]) (by simp [Declaration.subexpressions])))
    refine ⟨.function n xs b, ?_, ?_⟩
    · rw [List.cons_append, List.cons_append, List.append_assoc, List.append_assoc]
      exact reads_declaration_fun ht (reads_identifier hword) rfl hn hxs hb
    · rw [Declaration.relabel, Declaration.relabel, heqn, heqx, heqb]
  | .method owner name parameters body =>
    obtain ⟨t, ts₁, rfl, ht, hts₁⟩ := List.map_eq_cons_iff.1 hts
    obtain ⟨t₁, ts₂, rfl, hword, hts₂⟩ := List.map_eq_cons_iff.1 hts₁
    obtain ⟨tsn, ts₃, rfl, hname, hts₃⟩ := List.map_eq_append_iff.1 hts₂
    obtain ⟨tsp, tsb, rfl, hparameters, hbody⟩ := List.map_eq_append_iff.1 hts₃
    obtain ⟨o, n, hn, heqo, heqn⟩ := exists_reads_methodName endToken
      (h.unresolved owner (by simp [Declaration.identifiers]))
      (h.unresolved name (by simp [Declaration.identifiers])) (tsp ++ (tsb ++ rest)) hname
    obtain ⟨xs, hxs, heqx⟩ := exists_reads_parameters endToken
      (fun x hx => h.unresolved x (by simp [Declaration.identifiers, hx])) (tsb ++ rest) hparameters
    obtain ⟨b, hb, heqb⟩ := exists_reads_braced endToken rest hbody (exists_reads_block body
      (h.mono (fun x hx => by simp [Declaration.identifiers, hx])
        (by simp [Declaration.subexpressions])))
    refine ⟨.method o n xs b, ?_, ?_⟩
    · rw [List.cons_append, List.cons_append, List.append_assoc, List.append_assoc]
      exact reads_declaration_fun ht (reads_identifier hword) rfl hn hxs hb
    · rw [Declaration.relabel, Declaration.relabel, heqo, heqn, heqx, heqb]

theorem exists_reads_block (b : List Statement)
    (h : Writable (blockIdentifiers b) (blockSubexpressions b)) {ts rest : List Token}
    (hts : ts.map Token.kind = blockTokens b) (hrest : isAtBlockEnd rest) :
    ∃ b', Reads (block endToken (ts ++ rest)) b' rest ∧
      relabelStatements Identifier.forgetSpan b' = relabelStatements Identifier.forgetSpan b := by
  match b with
  | [] =>
    rw [List.map_eq_nil_iff.1 hts]
    exact ⟨[], reads_block_nil hrest, rfl⟩
  | s :: b =>
    obtain ⟨ts₁, ts₂, rfl, hts₁, hts₂⟩ := List.map_eq_append_iff.1 hts
    obtain ⟨s', hs, heqs⟩ := exists_reads_statement s (h.mono (by simp [blockIdentifiers])
      (by simp [blockSubexpressions])) hts₁ (accept?_else_of_block hts₂ hrest)
    obtain ⟨b', hb, heqb⟩ := exists_reads_block b (h.mono (by simp [blockIdentifiers])
      (by simp [blockSubexpressions])) hts₂ hrest
    refine ⟨s' :: b', ?_, ?_⟩
    · rw [List.append_assoc]
      apply reads_block_cons _ hs hb
      obtain ⟨kind, kinds, hkinds, hstart⟩ := s.exists_tokens_eq
      rw [hkinds] at hts₁
      obtain ⟨t, ts₁, rfl, rfl, _⟩ := List.map_eq_cons_iff.1 hts₁
      exact not_isAtBlockEnd_of_starts hstart
    · rw [relabelStatements, relabelStatements, heqs, heqb]

end

end Parse

theorem map_kind_ofSource_print {b : Block}
    (h : Writable (blockIdentifiers b) (blockSubexpressions b)) :
    (Token.ofSource b.print).map Token.kind = blockTokens b ++ [.endOfInput] := by
  have hscan := scans_printBlock 0 b h []
  have hend : Token.kinds [] = [.endOfInput] := Token.kinds_of_gap rfl
  rw [List.append_nil, hend] at hscan
  exact hscan

/--
Parsing undoes printing: the printed form of a block is a source, and what it is parsed to differs
from the block in the places of identifiers only.
-/
theorem ofSource_print (b : Block) (h : Writable (blockIdentifiers b) (blockSubexpressions b)) :
    ∃ c, Block.ofSource b.print = .ok c ∧ c.forgetSpans = b.forgetSpans := by
  obtain ⟨ts, ts₁, hts, hblock, hend⟩ := List.map_eq_append_iff.1 (map_kind_ofSource_print h)
  obtain ⟨t, rfl, ht⟩ := List.map_eq_singleton_iff.1 hend
  have hstop : Parse.isAtBlockEnd [t] := by
    simp [Parse.isAtBlockEnd, ht]
  obtain ⟨c, hc, heq⟩ :=
    Parse.exists_reads_block (Token.endAfter (ts ++ [t]).getLast?) b h hblock hstop
  refine ⟨c, ?_, heq⟩
  unfold Block.ofSource
  rw [hts]
  exact Block.parse_of_reads hc ht

/--
```
\class{Meter}{}
\fun{Meter::scale}{by}{
    if by { return "a\t\"b\"\\"; } else { total = by / 1.5; }
}
\fun{main}{first, second}{
    total := Meter(first, "line\n");
    if second { return total; }
}
```
-/
def meterProgram : Block :=
  let name (name : String) : Identifier := { name }
  let read (x : String) : Expr := .identifier (name x)
  [.declaration (.class (name "Meter") []),
   .declaration (.method (name "Meter") (name "scale") [name "by"]
    [.conditional (read "by") [.return (.string "a\t\"b\"\\")]
      (some [.expression (.assign (read "total")
        (.binary .divide (read "by") (.number ⟨0x3ff8000000000000⟩)))])]),
   .declaration (.function (name "main") [name "first", name "second"]
    [.expression (.declare (name "total") (.call (read "Meter") [read "first", .string "line\n"])),
     .conditional (read "second") [.return (read "total")] none])]

theorem writable_meterProgram :
    Writable (blockIdentifiers meterProgram) (blockSubexpressions meterProgram) where
  unresolved := by decide +kernel
  isName := by decide +kernel
  assignable := by
    intro target value h
    simp [meterProgram, blockSubexpressions, Statement.subexpressions, Declaration.subexpressions,
      Expr.subexpressions, Expr.subexpressionsList] at h
    exact ⟨_, h.1⟩
  isQuotable := by
    intro value h
    simp [meterProgram, blockSubexpressions, Statement.subexpressions, Declaration.subexpressions,
      Expr.subexpressions, Expr.subexpressionsList] at h
    rw [← List.all_eq_true]
    obtain rfl | rfl := h <;> decide +kernel
  readsBack := by
    intro value h
    simp [meterProgram, blockSubexpressions, Statement.subexpressions, Declaration.subexpressions,
      Expr.subexpressions, Expr.subexpressionsList] at h
    rw [h]
    decide +kernel

theorem ofSource_print_meterProgram :
    Writable (blockIdentifiers meterProgram) (blockSubexpressions meterProgram) ∧
      ∃ c, Block.ofSource meterProgram.print = .ok c ∧ c.forgetSpans = meterProgram.forgetSpans :=
  ⟨writable_meterProgram, ofSource_print meterProgram writable_meterProgram⟩

end LiterateFun
