import LiterateFun.Proofs.Parsing.Completeness

/-!
This module contains the soundness of the parser: the grammar derives what the parser reads, from
the tokens that it takes. Together with its completeness, the parser accepts exactly the programs of
the grammar.
-/

namespace LiterateFun

namespace Parse

theorem Reads.exists_of_bind {r : Except ParseError (Parsed α n)}
    {f : Parsed α n → Except ParseError (Parsed β m)} {b : β} {rest : List Token}
    (h : Reads (r >>= f) b rest) :
    ∃ a rest₁ hlt, r = .ok ⟨a, rest₁, hlt⟩ ∧ Reads (f ⟨a, rest₁, hlt⟩) b rest := by
  cases r with
  | error e =>
    obtain ⟨_, h⟩ := h
    cases h
  | ok parsed => exact ⟨parsed.value, parsed.rest, parsed.rest_lt, rfl, h⟩

theorem Reads.eq_of_ok {a value : α} {rest₁ rest : List Token} {hlt : rest₁.length < n}
    (h : Reads (.ok ⟨a, rest₁, hlt⟩) value rest) : a = value ∧ rest₁ = rest := by
  obtain ⟨_, h⟩ := h
  cases h
  exact ⟨rfl, rfl⟩

theorem not_reads_error {e : ParseError} {value : α} {rest : List Token} :
    ¬Reads (.error e : Except ParseError (Parsed α n)) value rest := by
  rintro ⟨_, h⟩
  cases h

theorem exists_of_accept? {f : TokenKind → Option α} {ts ts₁ : List Token} {value : α}
    {hlt : ts₁.length < ts.length} (h : accept? f ts = some ⟨value, ts₁, hlt⟩) :
    ∃ t, ts = t :: ts₁ ∧ f t.kind = some value := by
  cases ts with
  | nil => cases h
  | cons t ts =>
    obtain ⟨v, hv, heq⟩ := Option.map_eq_some_iff.1 h
    cases heq
    exact ⟨t, rfl, hv⟩

theorem class_of_only {c : TokenClass} {kind : TokenKind} (h : only c kind = some ()) :
    kind.class = c := by
  unfold only at h
  split at h
  · assumption
  · cases h

theorem kind_of_only_symbol {s : Symbol} {kind : TokenKind} (h : only (.symbol s) kind = some ()) :
    kind = .symbol s := by
  have hclass := class_of_only h
  cases kind with
  | symbol s' =>
    cases hclass
    rfl
  | _ => cases hclass

theorem kind_of_only_keyword {k : Keyword} {kind : TokenKind}
    (h : only (.keyword k) kind = some ()) : kind = .keyword k := by
  have hclass := class_of_only h
  cases kind with
  | keyword k' =>
    cases hclass
    rfl
  | _ => cases hclass

theorem exists_of_reads_expect {endToken : Token} {s : Symbol} {ts rest : List Token} {u : Unit}
    (h : Reads (expect endToken (.symbol s) ts) u rest) :
    ∃ t, ts = t :: rest ∧ t.kind = .symbol s := by
  unfold expect at h
  split at h
  next parsed heq =>
    obtain ⟨-, rfl⟩ := Reads.eq_of_ok h
    obtain ⟨t, hts, ht⟩ := exists_of_accept? heq
    exact ⟨t, hts, kind_of_only_symbol ht⟩
  · exact absurd h not_reads_error

theorem exists_of_reads_identifier {endToken : Token} {ts rest : List Token} {x : Identifier}
    (h : Reads (identifier endToken ts) x rest) : ∃ t, ts = t :: rest ∧ t.Denotes x := by
  unfold identifier at h
  split at h
  next name lexeme position rest₁ =>
    obtain ⟨rfl, rfl⟩ := Reads.eq_of_ok h
    exact ⟨_, rfl, rfl, rfl⟩
  · exact absurd h not_reads_error

end Parse

theorem Operator.text_of_ofKind? {kind : TokenKind} {op : Operator}
    (h : Operator.ofKind? kind = some op) :
    ∃ s : Symbol, kind = .symbol s ∧ s.text = op.text.toList := by
  unfold Operator.ofKind? at h
  split at h
  · cases h
    exact ⟨.plus, rfl, rfl⟩
  · cases h
    exact ⟨.minus, rfl, rfl⟩
  · cases h
    exact ⟨.star, rfl, rfl⟩
  · cases h
    exact ⟨.slash, rfl, rfl⟩
  · cases h

namespace Grammar

open Parse

def Takes (p : List Token → Prop) (ts rest : List Token) : Prop :=
  ∃ taken, ts = taken ++ rest ∧ p taken

def Closed (s : Symbol) (p : List Token → Prop) (taken : List Token) : Prop :=
  ∃ ts t, taken = ts ++ [t] ∧ p ts ∧ t.kind = .symbol s

variable {endToken : Token}

theorem isExpression_assignment {ts₁ ts₂ : List Token} {t : Token} {a : Assignment}
    {x : Identifier} {value : Expr} (hx : IsBinary ts₁ (.identifier x))
    (ha : Assignment.ofKind? t.kind = some a) (hvalue : IsExpression ts₂ value) :
    IsExpression (ts₁ ++ t :: ts₂) (a.expr x value) := by
  unfold Assignment.ofKind? at ha
  split at ha
  next ht =>
    cases ha
    exact .assign hx ht hvalue
  next ht =>
    cases ha
    exact .declare hx ht hvalue
  · cases ha

mutual

theorem takes_expression (ts : List Token) {e : Expr} {rest : List Token}
    (h : Reads (expression endToken ts) e rest) : Takes (IsExpression · e) ts rest := by
  rw [expression] at h
  obtain ⟨left, ts₁, hlt₁, hleft, h⟩ := h.exists_of_bind
  obtain ⟨taken₁, hts, hbinary⟩ := takes_binary ts ⟨hlt₁, hleft⟩
  simp only at h
  split at h
  next heq =>
    obtain ⟨rfl, rfl⟩ := Reads.eq_of_ok h
    exact ⟨taken₁, hts, .binary hbinary⟩
  next a ts₂ hlt₂ heq =>
    obtain ⟨t, rfl, ha⟩ := exists_of_accept? heq
    split at h
    next x =>
      obtain ⟨value, ts₃, hlt₃, hvalue, h⟩ := h.exists_of_bind
      obtain ⟨taken₂, rfl, hexpression⟩ := takes_expression ts₂ ⟨hlt₃, hvalue⟩
      obtain ⟨rfl, rfl⟩ := Reads.eq_of_ok h
      refine ⟨taken₁ ++ t :: taken₂, ?_, isExpression_assignment hbinary ha hexpression⟩
      rw [hts, List.append_assoc, List.cons_append]
    · exact absurd h not_reads_error
termination_by (ts.length, 3)

theorem takes_binary (ts : List Token) {e : Expr} {rest : List Token}
    (h : Reads (binary endToken ts) e rest) : Takes (IsBinary · e) ts rest := by
  rw [binary] at h
  obtain ⟨left, ts₁, hlt₁, hleft, h⟩ := h.exists_of_bind
  obtain ⟨taken₁, hts, hpostfixed⟩ := takes_postfixed ts ⟨hlt₁, hleft⟩
  obtain ⟨value, ts₂, hlt₂, hrest, h⟩ := h.exists_of_bind
  obtain ⟨taken₂, rfl, hbinary⟩ := takes_binaryRest ts₁ (.postfixed hpostfixed) ⟨hlt₂, hrest⟩
  obtain ⟨rfl, rfl⟩ := Reads.eq_of_ok h
  refine ⟨taken₁ ++ taken₂, ?_, hbinary⟩
  rw [hts, List.append_assoc]
termination_by (ts.length, 2)

theorem takes_binaryRest (ts : List Token) {taken : List Token} {left e : Expr}
    {rest : List Token} (hleft : IsBinary taken left)
    (h : Reads (binaryRest endToken left ts) e rest) :
    Takes (fun more => IsBinary (taken ++ more) e) ts rest := by
  rw [binaryRest] at h
  split at h
  next heq =>
    obtain ⟨rfl, rfl⟩ := Reads.eq_of_ok h
    refine ⟨[], rfl, ?_⟩
    simpa using hleft
  next op ts₁ hlt₁ heq =>
    obtain ⟨t, hts, hop⟩ := exists_of_accept? heq
    obtain ⟨s, ht, htext⟩ := Operator.text_of_ofKind? hop
    obtain ⟨right, ts₂, hlt₂, hright, h⟩ := h.exists_of_bind
    obtain ⟨taken₁, hts₁, hpostfixed⟩ := takes_postfixed ts₁ ⟨hlt₂, hright⟩
    obtain ⟨value, ts₃, hlt₃, hrest, h⟩ := h.exists_of_bind
    obtain ⟨taken₂, rfl, hbinary⟩ :=
      takes_binaryRest ts₂ (.operation hleft ht htext hpostfixed) ⟨hlt₃, hrest⟩
    obtain ⟨rfl, rfl⟩ := Reads.eq_of_ok h
    refine ⟨t :: (taken₁ ++ taken₂), ?_, ?_⟩
    · simp [hts, hts₁]
    · simpa using hbinary
termination_by (ts.length, 0)

theorem takes_postfixed (ts : List Token) {e : Expr} {rest : List Token}
    (h : Reads (postfixed endToken ts) e rest) : Takes (IsPostfixed · e) ts rest := by
  rw [postfixed] at h
  obtain ⟨callee, ts₁, hlt₁, hcallee, h⟩ := h.exists_of_bind
  obtain ⟨taken₁, hts, hprimary⟩ := takes_primary ts ⟨hlt₁, hcallee⟩
  obtain ⟨value, ts₂, hlt₂, hrest, h⟩ := h.exists_of_bind
  obtain ⟨taken₂, rfl, hpostfixed⟩ := takes_postfixedRest ts₁ (.primary hprimary) ⟨hlt₂, hrest⟩
  obtain ⟨rfl, rfl⟩ := Reads.eq_of_ok h
  refine ⟨taken₁ ++ taken₂, ?_, hpostfixed⟩
  rw [hts, List.append_assoc]
termination_by (ts.length, 1)

theorem takes_postfixedRest (ts : List Token) {taken : List Token} {callee e : Expr}
    {rest : List Token} (hcallee : IsPostfixed taken callee)
    (h : Reads (postfixedRest endToken callee ts) e rest) :
    Takes (fun more => IsPostfixed (taken ++ more) e) ts rest := by
  rw [postfixedRest] at h
  split at h
  next heq =>
    obtain ⟨rfl, rfl⟩ := Reads.eq_of_ok h
    refine ⟨[], rfl, ?_⟩
    simpa using hcallee
  next ts₁ hlt₁ heq =>
    obtain ⟨t, hts, hopen⟩ := exists_of_accept? heq
    obtain ⟨args, ts₂, hlt₂, hargs, h⟩ := h.exists_of_bind
    obtain ⟨_, hts₁, taken₁, t₁, rfl, harguments, hclose⟩ := takes_arguments ts₁ ⟨hlt₂, hargs⟩
    obtain ⟨value, ts₃, hlt₃, hrest, h⟩ := h.exists_of_bind
    obtain ⟨taken₂, rfl, hpostfixed⟩ := takes_postfixedRest ts₂
      (.call hcallee (kind_of_only_symbol hopen) harguments hclose) ⟨hlt₃, hrest⟩
    obtain ⟨rfl, rfl⟩ := Reads.eq_of_ok h
    refine ⟨t :: (taken₁ ++ t₁ :: taken₂), ?_, ?_⟩
    · simp [hts, hts₁]
    · simpa using hpostfixed
termination_by (ts.length, 0)

theorem takes_arguments (ts : List Token) {es : List Expr} {rest : List Token}
    (h : Reads (arguments endToken ts) es rest) :
    Takes (Closed .rightParen (IsArguments · es)) ts rest := by
  rw [arguments] at h
  split at h
  next ts₁ hlt₁ heq =>
    obtain ⟨rfl, rfl⟩ := Reads.eq_of_ok h
    obtain ⟨t, hts, hclose⟩ := exists_of_accept? heq
    exact ⟨[t], hts, [], t, rfl, .none, kind_of_only_symbol hclose⟩
  next heq =>
    obtain ⟨taken, hts, taken₁, t, htaken, hsome, hclose⟩ := takes_someArguments ts h
    exact ⟨taken, hts, taken₁, t, htaken, .some hsome, hclose⟩
termination_by (ts.length, 5)

theorem takes_someArguments (ts : List Token) {es : List Expr} {rest : List Token}
    (h : Reads (someArguments endToken ts) es rest) :
    Takes (Closed .rightParen (IsSomeArguments · es)) ts rest := by
  rw [someArguments] at h
  obtain ⟨first, ts₁, hlt₁, hfirst, h⟩ := h.exists_of_bind
  obtain ⟨taken₁, hts, hexpression⟩ := takes_expression ts ⟨hlt₁, hfirst⟩
  simp only at h
  split at h
  next ts₂ hlt₂ heq =>
    obtain ⟨t, hts₁, hcomma⟩ := exists_of_accept? heq
    obtain ⟨others, ts₃, hlt₃, hothers, h⟩ := h.exists_of_bind
    obtain ⟨_, hts₂, taken₂, t₁, rfl, hsome, hclose⟩ := takes_someArguments ts₂ ⟨hlt₃, hothers⟩
    obtain ⟨rfl, rfl⟩ := Reads.eq_of_ok h
    refine ⟨taken₁ ++ t :: (taken₂ ++ [t₁]), ?_, taken₁ ++ t :: taken₂, t₁, ?_,
      .cons hexpression (kind_of_only_symbol hcomma) hsome, hclose⟩
    · simp [hts, hts₁, hts₂]
    · simp
  next heq =>
    obtain ⟨_, ts₂, hlt₂, hexpect, h⟩ := h.exists_of_bind
    obtain ⟨t, hts₁, hclose⟩ := exists_of_reads_expect ⟨hlt₂, hexpect⟩
    obtain ⟨rfl, rfl⟩ := Reads.eq_of_ok h
    refine ⟨taken₁ ++ [t], ?_, taken₁, t, rfl, .last hexpression, hclose⟩
    simp [hts, hts₁]
termination_by (ts.length, 4)

theorem takes_primary (ts : List Token) {e : Expr} {rest : List Token}
    (h : Reads (primary endToken ts) e rest) : Takes (IsPrimary · e) ts rest := by
  unfold primary at h
  split at h
  next value lexeme position ts₁ =>
    obtain ⟨rfl, rfl⟩ := Reads.eq_of_ok h
    exact ⟨[_], rfl, .string rfl⟩
  next value lexeme position ts₁ =>
    obtain ⟨rfl, rfl⟩ := Reads.eq_of_ok h
    exact ⟨[_], rfl, .number rfl⟩
  next name lexeme position ts₁ =>
    obtain ⟨rfl, rfl⟩ := Reads.eq_of_ok h
    exact ⟨[_], rfl, .identifier ⟨rfl, rfl⟩⟩
  next lexeme position ts₁ =>
    obtain ⟨value, ts₂, hlt₂, hvalue, h⟩ := h.exists_of_bind
    obtain ⟨taken, hts₁, hexpression⟩ := takes_expression ts₁ ⟨hlt₂, hvalue⟩
    obtain ⟨_, ts₃, hlt₃, hexpect, h⟩ := h.exists_of_bind
    obtain ⟨t, hts₂, hclose⟩ := exists_of_reads_expect ⟨hlt₃, hexpect⟩
    obtain ⟨rfl, rfl⟩ := Reads.eq_of_ok h
    let opening : Token := { kind := .symbol .leftParen, lexeme, position }
    have hprimary : IsPrimary (opening :: (taken ++ [t])) value := .parens rfl hexpression hclose
    refine ⟨opening :: (taken ++ [t]), ?_, hprimary⟩
    simp [opening, hts₁, hts₂]
  · exact absurd h not_reads_error
termination_by (ts.length, 0)

end

theorem takes_someParameters (ts : List Token) {xs : List Identifier} {rest : List Token}
    (h : Reads (someParameters endToken ts) xs rest) :
    Takes (Closed .rightBrace (IsSomeParameters · xs)) ts rest := by
  rw [someParameters] at h
  obtain ⟨first, ts₁, hlt₁, hfirst, h⟩ := h.exists_of_bind
  obtain ⟨t, hts, hdenotes⟩ := exists_of_reads_identifier ⟨hlt₁, hfirst⟩
  simp only at h
  split at h
  next ts₂ hlt₂ heq =>
    obtain ⟨t₁, hts₁, hcomma⟩ := exists_of_accept? heq
    obtain ⟨others, ts₃, hlt₃, hothers, h⟩ := h.exists_of_bind
    obtain ⟨_, hts₂, taken, t₂, rfl, hsome, hclose⟩ := takes_someParameters ts₂ ⟨hlt₃, hothers⟩
    obtain ⟨rfl, rfl⟩ := Reads.eq_of_ok h
    refine ⟨t :: t₁ :: (taken ++ [t₂]), ?_, t :: t₁ :: taken, t₂, rfl,
      .cons hdenotes (kind_of_only_symbol hcomma) hsome, hclose⟩
    simp [hts, hts₁, hts₂]
  next heq =>
    obtain ⟨_, ts₂, hlt₂, hexpect, h⟩ := h.exists_of_bind
    obtain ⟨t₁, hts₁, hclose⟩ := exists_of_reads_expect ⟨hlt₂, hexpect⟩
    obtain ⟨rfl, rfl⟩ := Reads.eq_of_ok h
    refine ⟨[t, t₁], ?_, [t], t₁, rfl, .last hdenotes, hclose⟩
    simp [hts, hts₁]
termination_by ts.length

theorem takes_parameters {ts rest : List Token} {xs : List Identifier}
    (h : Reads (parameters endToken ts) xs rest) : Takes (IsParameters · xs) ts rest := by
  rw [parameters] at h
  obtain ⟨_, ts₁, hlt₁, hexpect, h⟩ := h.exists_of_bind
  obtain ⟨t, rfl, hopen⟩ := exists_of_reads_expect ⟨hlt₁, hexpect⟩
  simp only at h
  split at h
  next ts₂ hlt₂ heq =>
    obtain ⟨t₁, rfl, hclose⟩ := exists_of_accept? heq
    obtain ⟨rfl, rfl⟩ := Reads.eq_of_ok h
    exact ⟨[t, t₁], rfl, .none hopen (kind_of_only_symbol hclose)⟩
  next heq =>
    obtain ⟨names, ts₂, hlt₂, hnames, h⟩ := h.exists_of_bind
    obtain ⟨_, rfl, taken, t₁, rfl, hsome, hclose⟩ := takes_someParameters ts₁ ⟨hlt₂, hnames⟩
    obtain ⟨rfl, rfl⟩ := Reads.eq_of_ok h
    exact ⟨t :: (taken ++ [t₁]), rfl, .some hopen hsome hclose⟩

theorem takes_className {ts rest : List Token} {x : Identifier}
    (h : Reads (className endToken ts) x rest) : Takes (IsName · x) ts rest := by
  rw [className] at h
  obtain ⟨_, ts₁, hlt₁, hexpect, h⟩ := h.exists_of_bind
  obtain ⟨t, rfl, hopen⟩ := exists_of_reads_expect ⟨hlt₁, hexpect⟩
  obtain ⟨name, ts₂, hlt₂, hname, h⟩ := h.exists_of_bind
  obtain ⟨t₁, rfl, hdenotes⟩ := exists_of_reads_identifier ⟨hlt₂, hname⟩
  obtain ⟨_, ts₃, hlt₃, hexpect, h⟩ := h.exists_of_bind
  obtain ⟨t₂, rfl, hclose⟩ := exists_of_reads_expect ⟨hlt₃, hexpect⟩
  obtain ⟨rfl, rfl⟩ := Reads.eq_of_ok h
  exact ⟨[t, t₁, t₂], rfl, .mk hopen hdenotes hclose⟩

def IsCallableName (ts : List Token) (owner : Option Identifier) (name : Identifier) : Prop :=
  match owner with
  | some owner => IsMethodName ts owner name
  | none => IsName ts name

theorem takes_callableName {ts rest : List Token} {owner : Option Identifier} {name : Identifier}
    (h : Reads (callableName endToken ts) (owner, name) rest) :
    Takes (IsCallableName · owner name) ts rest := by
  rw [callableName] at h
  obtain ⟨_, ts₁, hlt₁, hexpect, h⟩ := h.exists_of_bind
  obtain ⟨t, rfl, hopen⟩ := exists_of_reads_expect ⟨hlt₁, hexpect⟩
  obtain ⟨first, ts₂, hlt₂, hfirst, h⟩ := h.exists_of_bind
  obtain ⟨t₁, rfl, hdenotes⟩ := exists_of_reads_identifier ⟨hlt₂, hfirst⟩
  simp only at h
  split at h
  next ts₃ hlt₃ heq =>
    obtain ⟨t₂, rfl, hcolon⟩ := exists_of_accept? heq
    obtain ⟨second, ts₄, hlt₄, hsecond, h⟩ := h.exists_of_bind
    obtain ⟨t₃, rfl, hdenotes'⟩ := exists_of_reads_identifier ⟨hlt₄, hsecond⟩
    obtain ⟨_, ts₅, hlt₅, hexpect, h⟩ := h.exists_of_bind
    obtain ⟨t₄, rfl, hclose⟩ := exists_of_reads_expect ⟨hlt₅, hexpect⟩
    obtain ⟨heq, rfl⟩ := Reads.eq_of_ok h
    cases heq
    exact ⟨[t, t₁, t₂, t₃, t₄], rfl,
      .mk hopen hdenotes (kind_of_only_symbol hcolon) hdenotes' hclose⟩
  next heq =>
    obtain ⟨_, ts₃, hlt₃, hexpect, h⟩ := h.exists_of_bind
    obtain ⟨t₂, rfl, hclose⟩ := exists_of_reads_expect ⟨hlt₃, hexpect⟩
    obtain ⟨heq, rfl⟩ := Reads.eq_of_ok h
    cases heq
    exact ⟨[t, t₁, t₂], rfl, .mk hopen hdenotes hclose⟩

theorem isDeclaration_callable {ts₁ ts₂ ts₃ : List Token} {t : Token} {owner : Option Identifier}
    {name : Identifier} {xs : List Identifier} {body : Block} (ht : t.kind = .identifier "fun")
    (hname : IsCallableName ts₁ owner name) (hxs : IsParameters ts₂ xs)
    (hbody : IsBraced ts₃ body) :
    IsDeclaration (t :: (ts₁ ++ (ts₂ ++ ts₃))) (callable owner name xs body) := by
  cases owner with
  | none => exact .function ht hname hxs hbody
  | some owner => exact .method ht hname hxs hbody

mutual

theorem takes_block (ts : List Token) {b : Block} {rest : List Token}
    (h : Reads (block endToken ts) b rest) : Takes (IsBlock · b) ts rest := by
  rw [block] at h
  split at h
  · obtain ⟨rfl, rfl⟩ := Reads.eq_of_ok h
    exact ⟨[], rfl, .nil⟩
  · obtain ⟨first, ts₁, hlt₁, hfirst, h⟩ := h.exists_of_bind
    obtain ⟨taken₁, hts, hstatement⟩ := takes_statement ts ⟨hlt₁, hfirst⟩
    obtain ⟨others, ts₂, hlt₂, hothers, h⟩ := h.exists_of_bind
    obtain ⟨taken₂, hts₁, hblock⟩ := takes_block ts₁ ⟨hlt₂, hothers⟩
    obtain ⟨rfl, rfl⟩ := Reads.eq_of_ok h
    refine ⟨taken₁ ++ taken₂, ?_, .cons hstatement hblock⟩
    simp [hts, hts₁]
termination_by (ts.length, 2)

theorem takes_braced (ts : List Token) {b : Block} {rest : List Token}
    (h : Reads (braced endToken ts) b rest) : Takes (IsBraced · b) ts rest := by
  rw [braced] at h
  obtain ⟨_, ts₁, hlt₁, hexpect, h⟩ := h.exists_of_bind
  obtain ⟨t, hts, hopen⟩ := exists_of_reads_expect ⟨hlt₁, hexpect⟩
  obtain ⟨body, ts₂, hlt₂, hbody, h⟩ := h.exists_of_bind
  obtain ⟨taken, hts₁, hblock⟩ := takes_block ts₁ ⟨hlt₂, hbody⟩
  obtain ⟨_, ts₃, hlt₃, hexpect, h⟩ := h.exists_of_bind
  obtain ⟨t₁, hts₂, hclose⟩ := exists_of_reads_expect ⟨hlt₃, hexpect⟩
  obtain ⟨rfl, rfl⟩ := Reads.eq_of_ok h
  refine ⟨t :: (taken ++ [t₁]), ?_, .mk hopen hblock hclose⟩
  simp [hts, hts₁, hts₂]
termination_by (ts.length, 0)

theorem takes_statement (ts : List Token) {s : Statement} {rest : List Token}
    (h : Reads (statement endToken ts) s rest) : Takes (IsStatement · s) ts rest := by
  rw [statement] at h
  split at h
  next ts₁ hlt₁ heq =>
    obtain ⟨t, hts, hif⟩ := exists_of_accept? heq
    obtain ⟨value, ts₂, hlt₂, hvalue, h⟩ := h.exists_of_bind
    obtain ⟨taken, hts₁, hconditional⟩ := takes_conditional ts₁ ⟨hlt₂, hvalue⟩
    obtain ⟨rfl, rfl⟩ := Reads.eq_of_ok h
    refine ⟨t :: taken, ?_, .conditional (kind_of_only_keyword hif) hconditional⟩
    simp [hts, hts₁]
  next =>
    split at h
    next ts₁ hlt₁ heq =>
      obtain ⟨t, hts, hreturn⟩ := exists_of_accept? heq
      obtain ⟨value, ts₂, hlt₂, hvalue, h⟩ := h.exists_of_bind
      obtain ⟨taken, hts₁, hexpression⟩ := takes_expression ts₁ ⟨hlt₂, hvalue⟩
      obtain ⟨_, ts₃, hlt₃, hexpect, h⟩ := h.exists_of_bind
      obtain ⟨t₁, hts₂, hclose⟩ := exists_of_reads_expect ⟨hlt₃, hexpect⟩
      obtain ⟨rfl, rfl⟩ := Reads.eq_of_ok h
      refine ⟨t :: (taken ++ [t₁]), ?_, .return (kind_of_only_keyword hreturn) hexpression hclose⟩
      simp [hts, hts₁, hts₂]
    next =>
      split at h
      · obtain ⟨d, ts₁, hlt₁, hd, h⟩ := h.exists_of_bind
        obtain ⟨_, hts, t, taken, rfl, ht, hdeclaration⟩ := takes_declaration ts ⟨hlt₁, hd⟩
        obtain ⟨rfl, rfl⟩ := Reads.eq_of_ok h
        exact ⟨t :: taken, hts, .declaration ht hdeclaration⟩
      · obtain ⟨value, ts₁, hlt₁, hvalue, h⟩ := h.exists_of_bind
        obtain ⟨taken, hts, hexpression⟩ := takes_expression ts ⟨hlt₁, hvalue⟩
        obtain ⟨_, ts₂, hlt₂, hexpect, h⟩ := h.exists_of_bind
        obtain ⟨t, hts₁, hclose⟩ := exists_of_reads_expect ⟨hlt₂, hexpect⟩
        obtain ⟨rfl, rfl⟩ := Reads.eq_of_ok h
        refine ⟨taken ++ [t], ?_, .expression hexpression hclose⟩
        simp [hts, hts₁]
termination_by (ts.length, 1)

theorem takes_conditional (ts : List Token) {s : Statement} {rest : List Token}
    (h : Reads (conditional endToken ts) s rest) : Takes (IsConditional · s) ts rest := by
  rw [conditional] at h
  obtain ⟨condition, ts₁, hlt₁, hcondition, h⟩ := h.exists_of_bind
  obtain ⟨taken₁, hts, hexpression⟩ := takes_expression ts ⟨hlt₁, hcondition⟩
  obtain ⟨consequent, ts₂, hlt₂, hconsequent, h⟩ := h.exists_of_bind
  obtain ⟨taken₂, hts₁, hbraced⟩ := takes_braced ts₁ ⟨hlt₂, hconsequent⟩
  simp only at h
  split at h
  next =>
    obtain ⟨rfl, rfl⟩ := Reads.eq_of_ok h
    refine ⟨taken₁ ++ taken₂, ?_, .plain hexpression hbraced⟩
    simp [hts, hts₁]
  next ts₃ hlt₃ heq =>
    obtain ⟨t, hts₂, helse⟩ := exists_of_accept? heq
    split at h
    next ts₄ hlt₄ heq =>
      obtain ⟨t₁, hts₃, hif⟩ := exists_of_accept? heq
      obtain ⟨nested, ts₅, hlt₅, hnested, h⟩ := h.exists_of_bind
      obtain ⟨taken₃, hts₄, hconditional⟩ := takes_conditional ts₄ ⟨hlt₅, hnested⟩
      obtain ⟨rfl, rfl⟩ := Reads.eq_of_ok h
      refine ⟨taken₁ ++ (taken₂ ++ t :: t₁ :: taken₃), ?_, .elseIf hexpression hbraced
        (kind_of_only_keyword helse) (kind_of_only_keyword hif) hconditional⟩
      simp [hts, hts₁, hts₂, hts₃, hts₄]
    next =>
      split at h
      · obtain ⟨alternative, ts₄, hlt₄, halternative, h⟩ := h.exists_of_bind
        obtain ⟨taken₃, hts₃, hbraced'⟩ := takes_braced ts₃ ⟨hlt₄, halternative⟩
        obtain ⟨rfl, rfl⟩ := Reads.eq_of_ok h
        refine ⟨taken₁ ++ (taken₂ ++ t :: taken₃), ?_, .otherwise hexpression hbraced
          (kind_of_only_keyword helse) hbraced'⟩
        simp [hts, hts₁, hts₂, hts₃]
      · exact absurd h not_reads_error
termination_by (ts.length, 0)

theorem takes_declaration (ts : List Token) {d : Declaration} {rest : List Token}
    (h : Reads (declaration endToken ts) d rest) :
    Takes (fun taken => ∃ t ts₁, taken = t :: ts₁ ∧ t.kind = .symbol .backslash ∧
      IsDeclaration ts₁ d) ts rest := by
  rw [declaration] at h
  obtain ⟨_, ts₁, hlt₁, hexpect, h⟩ := h.exists_of_bind
  obtain ⟨t, hts, ht⟩ := exists_of_reads_expect ⟨hlt₁, hexpect⟩
  obtain ⟨word, ts₂, hlt₂, hword, h⟩ := h.exists_of_bind
  obtain ⟨t₁, hts₁, hdenotes⟩ := exists_of_reads_identifier ⟨hlt₂, hword⟩
  simp only at h
  split at h
  next hclass =>
    obtain ⟨name, ts₃, hlt₃, hname, h⟩ := h.exists_of_bind
    obtain ⟨taken₁, hts₂, hisName⟩ := takes_className ⟨hlt₃, hname⟩
    obtain ⟨body, ts₄, hlt₄, hbody, h⟩ := h.exists_of_bind
    obtain ⟨taken₂, hts₃, hbraced⟩ := takes_braced ts₃ ⟨hlt₄, hbody⟩
    obtain ⟨rfl, rfl⟩ := Reads.eq_of_ok h
    have ht₁ : t₁.kind = .identifier "class" := by rw [hdenotes.1, hclass]
    refine ⟨t :: t₁ :: (taken₁ ++ taken₂), ?_, t, _, rfl, ht, .class ht₁ hisName hbraced⟩
    simp [hts, hts₁, hts₂, hts₃]
  next =>
    split at h
    next hfun =>
      obtain ⟨⟨owner, name⟩, ts₃, hlt₃, hname, h⟩ := h.exists_of_bind
      obtain ⟨taken₁, hts₂, hisName⟩ := takes_callableName ⟨hlt₃, hname⟩
      obtain ⟨names, ts₄, hlt₄, hnames, h⟩ := h.exists_of_bind
      obtain ⟨taken₂, (hts₃ : ts₃ = taken₂ ++ ts₄), hparameters⟩ :=
        takes_parameters ⟨hlt₄, hnames⟩
      obtain ⟨body, ts₅, hlt₅, hbody, h⟩ := h.exists_of_bind
      obtain ⟨taken₃, hts₄, hbraced⟩ := takes_braced ts₄ ⟨hlt₅, hbody⟩
      -- Functions and methods are read alike, and differ in whether there is an owner.
      have hd : d = callable owner name names body ∧ ts₅ = rest := by
        cases owner with
        | none =>
          obtain ⟨rfl, rfl⟩ := Reads.eq_of_ok h
          exact ⟨rfl, rfl⟩
        | some owner =>
          obtain ⟨rfl, rfl⟩ := Reads.eq_of_ok h
          exact ⟨rfl, rfl⟩
      obtain ⟨rfl, rfl⟩ := hd
      have ht₁ : t₁.kind = .identifier "fun" := by rw [hdenotes.1, hfun]
      refine ⟨t :: t₁ :: (taken₁ ++ (taken₂ ++ taken₃)), ?_, t, _, rfl, ht,
        isDeclaration_callable ht₁ hisName hparameters hbraced⟩
      simp [hts, hts₁, hts₂, hts₃, hts₄]
    · exact absurd h not_reads_error
termination_by (ts.length, 0)

end

end Grammar

end LiterateFun
