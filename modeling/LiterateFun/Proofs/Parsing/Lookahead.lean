import LiterateFun.Proofs.Parsing.Recognition

/-!
This module contains how far the parser looks ahead. What a rule of the grammar reads is settled by
the tokens that it takes and the next one, and so is the error that it shows. The tokens in front of
an error can always be completed to some that the rule reads.
-/

namespace LiterateFun

namespace Parse

abbrev Rule (α : Type) (bound : List Token → Nat) :=
  Token → (ts : List Token) → Except ParseError (Parsed α (bound ts))

def Viable (derives : List Token → α → Prop) (ts : List Token) : Prop :=
  ∃ us value, derives (ts ++ us) value

theorem viable_of_derives {derives : List Token → α → Prop} {ts : List Token} {value : α}
    (h : derives ts value) : Viable derives ts := by
  refine ⟨[], value, ?_⟩
  rw [List.append_nil]
  exact h

/--
A rule takes tokens that denote a value, or it fails in front of a token although those before it
can be completed. It does the same with any other tokens after the next one.
-/
inductive Settled (derives : List Token → α → Prop) (rule : Rule α bound) (ts : List Token) : Prop
  | reads {value : α} (taken : List Token) {rest : List Token} (hts : ts = taken ++ rest)
      (hderives : derives taken value) (hlt : ∀ rest', rest'.length < bound (taken ++ rest'))
      (h : ∀ endToken rest', endToken.kind = .endOfInput → rest'.head? = rest.head? →
        Reads (rule endToken (taken ++ rest')) value rest')
  | fails (cause : ParseError.Cause) (taken : List Token) {rest : List Token}
      (hts : ts = taken ++ rest) (hviable : Viable derives taken)
      (h : ∀ endToken rest', endToken.kind = .endOfInput → rest'.head? = rest.head? →
        rule endToken (taken ++ rest') = .error { cause, token := next endToken rest' })

theorem head?_append_congr {rest rest' : List Token} (h : rest'.head? = rest.head?)
    (taken : List Token) : (taken ++ rest').head? = (taken ++ rest).head? := by
  rw [List.head?_append, List.head?_append, h]

section

variable {derives derives' : List Token → α → Prop} {rule rule' : Rule α bound} {ts : List Token}

theorem settled_reads (value : α) (hderives : derives [] value)
    (hlt : ∀ ts' : List Token, ts'.length < bound ts')
    (h : ∀ endToken ts', endToken.kind = .endOfInput → ts'.head? = ts.head? →
      Reads (rule endToken ts') value ts') :
    Settled derives rule ts :=
  .reads [] rfl hderives hlt h

theorem settled_fails (cause : ParseError.Cause) (hviable : Viable derives [])
    (h : ∀ endToken ts', endToken.kind = .endOfInput → ts'.head? = ts.head? →
      rule endToken ts' = .error { cause, token := next endToken ts' }) :
    Settled derives rule ts :=
  .fails cause [] rfl hviable h

theorem Settled.congr (h : Settled derives rule' ts)
    (heq : ∀ endToken ts', endToken.kind = .endOfInput → ts'.head? = ts.head? →
      rule endToken ts' = rule' endToken ts') :
    Settled derives rule ts := by
  cases h with
  | reads taken hts hderives hlt h =>
    refine .reads taken hts hderives hlt fun endToken rest' hend hrest' => ?_
    rw [heq endToken _ hend (by rw [hts]; exact head?_append_congr hrest' _)]
    exact h endToken rest' hend hrest'
  | fails cause taken hts hviable h =>
    refine .fails cause taken hts hviable fun endToken rest' hend hrest' => ?_
    rw [heq endToken _ hend (by rw [hts]; exact head?_append_congr hrest' _)]
    exact h endToken rest' hend hrest'

theorem Settled.of_eq (heq : ∀ endToken ts', rule endToken ts' = rule' endToken ts')
    (h : Settled derives rule' ts) : Settled derives rule ts :=
  h.congr fun endToken ts' _ _ => heq endToken ts'

theorem Settled.mono (h : Settled derives' rule ts)
    (himp : ∀ ts value, derives' ts value → derives ts value) : Settled derives rule ts := by
  cases h with
  | reads taken hts hderives hlt h => exact .reads taken hts (himp _ _ hderives) hlt h
  | fails cause taken hts hviable h =>
    obtain ⟨us, value, hvalue⟩ := hviable
    exact .fails cause taken hts ⟨us, value, himp _ _ hvalue⟩ h

theorem Settled.cons {t : Token} {ts₁ : List Token} (hts : ts = t :: ts₁)
    (h : Settled (fun more value => derives (t :: more) value)
      (fun endToken ts' => rule endToken (t :: ts')) ts₁) :
    Settled derives rule ts := by
  cases h with
  | reads taken hts₁ hderives hlt h =>
    exact .reads (t :: taken) (by rw [hts, hts₁, List.cons_append]) hderives hlt h
  | fails cause taken hts₁ hviable h =>
    exact .fails cause (t :: taken) (by rw [hts, hts₁, List.cons_append]) hviable h

variable {β : Type} {bound₁ : List Token → Nat} {derives₁ : List Token → β → Prop}
variable {first : Rule β bound₁}
variable {more : Token → (ts : List Token) → Parsed β (bound₁ ts) →
  Except ParseError (Parsed α (bound ts))}

theorem Settled.bind (hfirst : Settled derives₁ first ts)
    (hviable : ∀ taken a, derives₁ taken a → Viable derives taken)
    (hmore : ∀ a taken rest (hlt : ∀ rest', rest'.length < bound₁ (taken ++ rest')),
      rest.length < bound₁ ts → derives₁ taken a →
      Settled (fun ts value => derives (taken ++ ts) value)
        (fun endToken rest' => more endToken (taken ++ rest') ⟨a, rest', hlt rest'⟩) rest) :
    Settled derives (fun endToken ts => first endToken ts >>= more endToken ts) ts := by
  cases hfirst with
  | @reads a taken rest hts hderives hlt h =>
    have hbind : ∀ endToken rest', endToken.kind = .endOfInput → rest'.head? = rest.head? →
        (first endToken (taken ++ rest') >>= more endToken (taken ++ rest')) =
          more endToken (taken ++ rest') ⟨a, rest', hlt rest'⟩ := by
      intro endToken rest' hend hrest'
      obtain ⟨hlt', heq⟩ := h endToken rest' hend hrest'
      rw [heq]
      rfl
    cases hmore a taken rest hlt (by rw [hts]; exact hlt rest) hderives with
    | reads taken₁ hts₁ hderives₁ hlt₁ h₁ =>
      refine .reads (taken ++ taken₁) (by rw [hts, hts₁, List.append_assoc]) hderives₁ ?_ ?_
      · intro rest'
        rw [List.append_assoc]
        exact hlt₁ rest'
      · intro endToken rest' hend hrest'
        rw [List.append_assoc, hbind _ _ hend (by rw [hts₁]; exact head?_append_congr hrest' _)]
        exact h₁ endToken rest' hend hrest'
    | fails cause taken₁ hts₁ hviable₁ h₁ =>
      obtain ⟨us, value, hvalue⟩ := hviable₁
      refine .fails cause (taken ++ taken₁) (by rw [hts, hts₁, List.append_assoc])
        ⟨us, value, by rw [List.append_assoc]; exact hvalue⟩ ?_
      intro endToken rest' hend hrest'
      rw [List.append_assoc, hbind _ _ hend (by rw [hts₁]; exact head?_append_congr hrest' _)]
      exact h₁ endToken rest' hend hrest'
  | fails cause taken hts hviable₁ h =>
    -- The tokens complete the first rule, and with some more the whole one.
    obtain ⟨us, a, ha⟩ := hviable₁
    obtain ⟨us', value, hvalue⟩ := hviable _ a ha
    refine .fails cause taken hts ⟨us ++ us', value, by rw [← List.append_assoc]; exact hvalue⟩ ?_
    intro endToken rest' hend hrest'
    rw [h endToken rest' hend hrest']
    rfl

theorem Settled.map {f : β → α} (hfirst : Settled derives₁ first ts)
    (hmore : ∀ endToken ts a rest hlt, Reads (more endToken ts ⟨a, rest, hlt⟩) (f a) rest)
    (hderives : ∀ taken a, derives₁ taken a → derives taken (f a)) :
    Settled derives (fun endToken ts => first endToken ts >>= more endToken ts) ts := by
  refine hfirst.bind (fun _ _ h => viable_of_derives (hderives _ _ h)) ?_
  intro a taken rest hlt _ ha
  refine settled_reads (f a) ?_ ?_ fun endToken ts' _ _ => hmore endToken _ a ts' (hlt ts')
  · rw [List.append_nil]
    exact hderives taken a ha
  · intro ts'
    obtain ⟨hlt', _⟩ := hmore (Token.endAfter none) _ a ts' (hlt ts')
    exact hlt'

end

theorem accept?_settled (f : TokenKind → Option α) (ts : List Token) :
    (∃ t ts₁ a, ts = t :: ts₁ ∧ f t.kind = some a) ∨
      ∀ ts', ts'.head? = ts.head? → accept? f ts' = none := by
  cases ts with
  | nil =>
    refine .inr fun ts' hts' => ?_
    rw [List.head?_eq_none_iff.1 hts']
    rfl
  | cons t ts =>
    cases ht : f t.kind with
    | some a => exact .inl ⟨t, ts, a, rfl, ht⟩
    | none =>
      refine .inr fun ts' hts' => ?_
      obtain ⟨ts₁, rfl⟩ := List.head?_eq_some_iff.1 hts'
      exact accept?_of_none rfl ht

theorem identifier_of_kind {endToken t : Token} {ts : List Token} {name : String}
    (h : t.kind = .identifier name) :
    identifier endToken (t :: ts) = .ok ⟨{ name, span := t.span }, ts, Nat.lt_add_one _⟩ := by
  obtain ⟨kind, lexeme, position⟩ := t
  cases h
  rfl

theorem identifier_settled (ts : List Token) :
    (∃ t ts₁ name, ts = t :: ts₁ ∧ t.kind = .identifier name) ∨
      ∀ endToken ts', ts'.head? = ts.head? →
        identifier endToken ts' = .error (unexpected endToken [.identifier] ts') := by
  cases ts with
  | nil =>
    refine .inr fun endToken ts' hts' => ?_
    rw [List.head?_eq_none_iff.1 hts']
    rfl
  | cons t ts =>
    obtain ⟨kind, lexeme, position⟩ := t
    cases kind with
    | identifier name => exact .inl ⟨_, ts, name, rfl, rfl⟩
    | _ =>
      refine .inr fun endToken ts' hts' => ?_
      obtain ⟨ts₁, rfl⟩ := List.head?_eq_some_iff.1 hts'
      rfl

theorem primary_of_not_starts {endToken : Token} {ts : List Token}
    (h : ∀ t ∈ ts.head?, ¬Grammar.startsExpression t.kind) :
    primary endToken ts =
      .error (unexpected endToken [.string, .number, .identifier, .symbol .leftParen] ts) := by
  unfold primary
  split
  · exact absurd rfl (h _ rfl)
  · exact absurd rfl (h _ rfl)
  · exact absurd rfl (h _ rfl)
  · exact absurd rfl (h _ rfl)
  · rfl

theorem isAtBlockEnd_congr {ts ts' : List Token} (h : ts'.head? = ts.head?) :
    isAtBlockEnd ts' = isAtBlockEnd ts := by
  cases ts <;> cases ts' <;> simp_all [isAtBlockEnd]

theorem kind_next_eq {endToken t : Token} {ts ts₁ ts' : List Token} (hts : ts = t :: ts₁)
    (h : ts'.head? = ts.head?) : (next endToken ts').kind = t.kind := by
  rw [next, h, hts]
  rfl

theorem kind_next_ne {endToken : Token} {ts : List Token} {s : Symbol}
    (hend : endToken.kind = .endOfInput) (h : accept? (only (.symbol s)) ts = none) :
    (next endToken ts).kind ≠ .symbol s := by
  intro hnext
  cases ts with
  | nil => cases hend.symm.trans hnext
  | cons t ts => cases h.symm.trans (accept?_symbol hnext)

end Parse

namespace Grammar

open Parse

def tokenOf (kind : TokenKind) : Token :=
  { kind, lexeme := "", position := .first }

theorem isPrimary_word : IsPrimary [tokenOf (.identifier "a")] (.identifier { name := "a" }) :=
  .identifier ⟨rfl, rfl⟩

theorem isBraced_nil : IsBraced [tokenOf (.symbol .leftBrace), tokenOf (.symbol .rightBrace)] [] :=
  .mk rfl .nil rfl

theorem isParameters_nil :
    IsParameters [tokenOf (.symbol .leftBrace), tokenOf (.symbol .rightBrace)] [] :=
  .none rfl rfl

theorem isName_word :
    IsName [tokenOf (.symbol .leftBrace), tokenOf (.identifier "a"),
      tokenOf (.symbol .rightBrace)] { name := "a" } :=
  .mk rfl ⟨rfl, rfl⟩ rfl

theorem viable_nil_declaration : Viable IsDeclaration [] := by
  have ht : (tokenOf (.identifier "class")).kind = .identifier "class" := rfl
  exact ⟨_, _, .class ht isName_word isBraced_nil⟩

theorem settled_expect (s : Symbol) (ts : List Token) :
    Settled (fun taken _ => ∃ t : Token, taken = [t] ∧ t.kind = .symbol s)
      (fun endToken => expect endToken (.symbol s)) ts := by
  obtain ⟨t, ts₁, _, hts, ht⟩ | hnone := accept?_settled (only (.symbol s)) ts
  · have ht := kind_of_only_symbol ht
    exact .cons hts (settled_reads () ⟨t, rfl, ht⟩ (fun _ => Nat.lt_add_one _)
      fun _ _ _ _ => reads_expect ht)
  · refine settled_fails (.unexpected [.symbol s]) ⟨[tokenOf (.symbol s)], (), _, rfl, rfl⟩ ?_
    intro endToken ts' _ hts'
    rw [expect, hnone ts' hts']
    rfl

theorem settled_identifier (ts : List Token) :
    Settled (fun taken x => ∃ t : Token, taken = [t] ∧ t.Denotes x) identifier ts := by
  obtain ⟨t, ts₁, name, hts, ht⟩ | herror := identifier_settled ts
  · exact .cons hts (settled_reads { name, span := t.span } ⟨t, rfl, ht, rfl⟩
      (fun _ => Nat.lt_add_one _) fun _ _ _ _ => reads_identifier ht)
  · refine settled_fails (.unexpected [.identifier]) ?_ fun endToken ts' _ => herror endToken ts'
    exact ⟨[tokenOf (.identifier "a")], { name := "a" }, _, rfl, rfl, rfl⟩

mutual

theorem settled_expression (ts : List Token) : Settled IsExpression expression ts := by
  refine .of_eq expression.eq_def ?_
  refine (settled_binary ts).bind (fun _ _ h => viable_of_derives (.binary h)) ?_
  intro left taken ts₁ hlt hlt₁ hleft
  have hexpression : IsExpression (taken ++ []) left := by
    rw [List.append_nil]
    exact .binary hleft
  obtain ⟨t, ts₂, a, hts₁, ha⟩ | hnone := accept?_settled Assignment.ofKind? ts₁
  · have hlt₂ : ts₂.length < ts.length := by
      rw [hts₁, List.length_cons] at hlt₁
      omega
    cases left with
    | identifier x =>
      refine .cons hts₁ ?_
      simp only [accept?_of_some ha]
      refine (settled_expression ts₂).map (fun _ _ _ _ _ => reads_ok) ?_
      intro taken₁ value hvalue
      exact isExpression_assignment hleft ha hvalue
    | _ =>
      refine settled_fails a.cause (viable_of_derives hexpression) fun endToken ts' _ hts' => ?_
      rw [hts₁] at hts'
      obtain ⟨ts₃, rfl⟩ := List.head?_eq_some_iff.1 hts'
      simp only [accept?_of_some ha]
  · refine settled_reads left hexpression hlt fun endToken ts' _ hts' => ?_
    simp only [hnone ts' hts']
    exact reads_ok
termination_by (ts.length, 3)

theorem settled_binary (ts : List Token) : Settled IsBinary binary ts := by
  refine .of_eq binary.eq_def ?_
  refine (settled_postfixed ts).bind (fun _ _ h => viable_of_derives (.postfixed h)) ?_
  intro left taken ts₁ _ hlt₁ hleft
  exact (settled_binaryRest ts₁ (.postfixed hleft)).map (fun _ _ _ _ _ => reads_ok) fun _ _ h => h
termination_by (ts.length, 2)

theorem settled_binaryRest (ts : List Token) {taken : List Token} {left : Expr}
    (hleft : IsBinary taken left) :
    Settled (fun more e => IsBinary (taken ++ more) e) (fun endToken => binaryRest endToken left)
      ts := by
  refine .of_eq (fun endToken => binaryRest.eq_def endToken left) ?_
  obtain ⟨t, ts₁, op, hts, hop⟩ | hnone := accept?_settled Operator.ofKind? ts
  · have hlt₁ : ts₁.length < ts.length := by
      rw [hts, List.length_cons]
      omega
    obtain ⟨s, ht, htext⟩ := Operator.text_of_ofKind? hop
    refine .cons hts ?_
    simp only [accept?_of_some hop]
    refine (settled_postfixed ts₁).bind ?_ ?_
    · intro taken₁ right hright
      exact viable_of_derives (.operation hleft ht htext hright)
    · intro right taken₁ ts₂ _ hlt₂ hright
      have hbinary := IsBinary.operation hleft ht htext hright
      refine (settled_binaryRest ts₂ hbinary).map (fun _ _ _ _ _ => reads_ok) ?_
      intro taken₂ value hvalue
      rw [List.append_assoc, List.cons_append] at hvalue
      exact hvalue
  · refine settled_reads left ?_ (fun _ => Nat.lt_add_one _) fun endToken ts' _ hts' => ?_
    · rw [List.append_nil]
      exact hleft
    · simp only [hnone ts' hts']
      exact reads_ok
termination_by (ts.length, 0)

theorem settled_postfixed (ts : List Token) : Settled IsPostfixed postfixed ts := by
  refine .of_eq postfixed.eq_def ?_
  refine (settled_primary ts).bind (fun _ _ h => viable_of_derives (.primary h)) ?_
  intro callee taken ts₁ _ hlt₁ hcallee
  exact (settled_postfixedRest ts₁ (.primary hcallee)).map (fun _ _ _ _ _ => reads_ok)
    fun _ _ h => h
termination_by (ts.length, 1)

theorem settled_postfixedRest (ts : List Token) {taken : List Token} {callee : Expr}
    (hcallee : IsPostfixed taken callee) :
    Settled (fun more e => IsPostfixed (taken ++ more) e)
      (fun endToken => postfixedRest endToken callee) ts := by
  refine .of_eq (fun endToken => postfixedRest.eq_def endToken callee) ?_
  obtain ⟨t, ts₁, _, hts, hopen⟩ | hnone := accept?_settled (only (.symbol .leftParen)) ts
  · have hlt₁ : ts₁.length < ts.length := by
      rw [hts, List.length_cons]
      omega
    refine .cons hts ?_
    simp only [accept?_of_some hopen]
    have hcall {taken₁ : List Token} {args : List Expr}
        (h : Closed .rightParen (IsArguments · args) taken₁) :
        IsPostfixed (taken ++ t :: taken₁) (.call callee args) := by
      obtain ⟨ts, t₁, rfl, hargs, hclose⟩ := h
      exact .call hcallee (kind_of_only_symbol hopen) hargs hclose
    refine (settled_arguments ts₁).bind (fun _ _ h => viable_of_derives (hcall h)) ?_
    intro args taken₁ ts₂ _ hlt₂ hargs
    refine (settled_postfixedRest ts₂ (hcall hargs)).map (fun _ _ _ _ _ => reads_ok) ?_
    intro taken₂ value hvalue
    rw [List.append_assoc, List.cons_append] at hvalue
    exact hvalue
  · refine settled_reads callee ?_ (fun _ => Nat.lt_add_one _) fun endToken ts' _ hts' => ?_
    · rw [List.append_nil]
      exact hcallee
    · simp only [hnone ts' hts']
      exact reads_ok
termination_by (ts.length, 0)

theorem settled_arguments (ts : List Token) :
    Settled (fun taken es => Closed .rightParen (IsArguments · es) taken) arguments ts := by
  obtain ⟨t, ts₁, _, hts, hclose⟩ | hnone := accept?_settled (only (.symbol .rightParen)) ts
  · refine .cons hts (settled_reads [] ?_ (fun _ => Nat.lt_add_one _) fun endToken ts' _ _ => ?_)
    · exact ⟨[], t, rfl, .none, kind_of_only_symbol hclose⟩
    · exact reads_arguments_nil (kind_of_only_symbol hclose)
  · refine ((settled_someArguments ts).mono ?_).congr fun endToken ts' _ hts' => ?_
    · rintro taken es ⟨ts, t, htaken, hsome, hclose⟩
      exact ⟨ts, t, htaken, .some hsome, hclose⟩
    · rw [arguments, hnone ts' hts']
termination_by (ts.length, 5)

theorem settled_someArguments (ts : List Token) :
    Settled (fun taken es => Closed .rightParen (IsSomeArguments · es) taken) someArguments ts := by
  refine .of_eq someArguments.eq_def ?_
  refine (settled_expression ts).bind ?_ ?_
  · intro taken first hfirst
    exact ⟨[tokenOf (.symbol .rightParen)], [first], taken, _, rfl, .last hfirst, rfl⟩
  intro first taken ts₁ _ hlt₁ hfirst
  obtain ⟨t, ts₂, _, hts₁, hcomma⟩ | hnone := accept?_settled (only (.symbol .comma)) ts₁
  · have hlt₂ : ts₂.length < ts.length := by
      rw [hts₁, List.length_cons] at hlt₁
      omega
    refine .cons hts₁ ?_
    simp only [accept?_of_some hcomma]
    refine (settled_someArguments ts₂).map (fun _ _ _ _ _ => reads_ok) ?_
    rintro _ es ⟨taken₁, t₁, rfl, hes, hclose⟩
    refine ⟨taken ++ t :: taken₁, t₁, ?_, .cons hfirst (kind_of_only_symbol hcomma) hes, hclose⟩
    rw [List.append_assoc, List.cons_append]
  · apply Settled.congr
    rotate_left
    · intro endToken ts' _ hts'
      simp only [hnone ts' hts']
      rfl
    · refine (settled_expect .rightParen ts₁).map (fun _ _ _ _ _ => reads_ok) ?_
      rintro _ _ ⟨t, rfl, hclose⟩
      exact ⟨taken, t, rfl, .last hfirst, hclose⟩
termination_by (ts.length, 4)

theorem settled_primary (ts : List Token) : Settled IsPrimary primary ts := by
  by_cases hstarts : ∃ t ∈ ts.head?, startsExpression t.kind
  · obtain ⟨t, ht, hstarts⟩ := hstarts
    obtain ⟨ts₁, hts⟩ := List.head?_eq_some_iff.1 ht
    have hlt₁ : ts₁.length < ts.length := by
      rw [hts, List.length_cons]
      omega
    refine .cons hts ?_
    have hlt : ∀ ts' : List Token, ts'.length < (t :: ts').length := fun _ => Nat.lt_add_one _
    obtain ⟨kind, lexeme, position⟩ := t
    cases kind with
    | string value =>
      exact settled_reads _ (.string rfl) hlt fun _ _ _ _ => reads_primary_string rfl
    | number value =>
      exact settled_reads _ (.number rfl) hlt fun _ _ _ _ => reads_primary_number rfl
    | identifier name =>
      let t : Token := { kind := .identifier name, lexeme, position }
      have hprimary : IsPrimary [t] (.identifier { name, span := t.span }) :=
        .identifier ⟨rfl, rfl⟩
      exact settled_reads _ hprimary hlt fun _ _ _ _ => reads_primary_identifier rfl
    | symbol s =>
      cases s with
      | leftParen =>
        refine .of_eq (fun endToken ts' => primary.eq_def endToken _) ?_
        refine (settled_expression ts₁).bind ?_ ?_
        · intro taken value hvalue
          exact ⟨[tokenOf (.symbol .rightParen)], value, .parens rfl hvalue rfl⟩
        · intro value taken ts₂ _ _ hvalue
          refine (settled_expect .rightParen ts₂).map (fun _ _ _ _ _ => reads_ok) ?_
          rintro _ _ ⟨t₁, rfl, hclose⟩
          exact .parens rfl hvalue hclose
      | _ => cases hstarts
    | _ => cases hstarts
  · refine settled_fails (.unexpected [.string, .number, .identifier, .symbol .leftParen])
      ⟨_, _, isPrimary_word⟩ fun endToken ts' _ hts' => ?_
    apply primary_of_not_starts
    rw [hts']
    exact fun t ht hstart => hstarts ⟨t, ht, hstart⟩
termination_by (ts.length, 0)

end

theorem settled_someParameters (ts : List Token) :
    Settled (fun taken xs => Closed .rightBrace (IsSomeParameters · xs) taken) someParameters
      ts := by
  refine .of_eq someParameters.eq_def ?_
  refine (settled_identifier ts).bind ?_ ?_
  · rintro _ first ⟨t, rfl, hfirst⟩
    exact ⟨[tokenOf (.symbol .rightBrace)], [first], [t], _, rfl, .last hfirst, rfl⟩
  rintro first _ ts₁ _ hlt₁ ⟨t, rfl, hfirst⟩
  obtain ⟨t₁, ts₂, _, hts₁, hcomma⟩ | hnone := accept?_settled (only (.symbol .comma)) ts₁
  · have hlt₂ : ts₂.length < ts.length := by
      rw [hts₁, List.length_cons] at hlt₁
      omega
    refine .cons hts₁ ?_
    simp only [accept?_of_some hcomma]
    refine (settled_someParameters ts₂).map (fun _ _ _ _ _ => reads_ok) ?_
    rintro _ xs ⟨taken, t₂, rfl, hxs, hclose⟩
    exact ⟨t :: t₁ :: taken, t₂, rfl, .cons hfirst (kind_of_only_symbol hcomma) hxs, hclose⟩
  · apply Settled.congr
    rotate_left
    · intro endToken ts' _ hts'
      simp only [hnone ts' hts']
      rfl
    · refine (settled_expect .rightBrace ts₁).map (fun _ _ _ _ _ => reads_ok) ?_
      rintro _ _ ⟨t₁, rfl, hclose⟩
      exact ⟨[t], t₁, rfl, .last hfirst, hclose⟩
termination_by ts.length

theorem settled_parameters (ts : List Token) : Settled IsParameters parameters ts := by
  refine .of_eq parameters.eq_def ?_
  refine (settled_expect .leftBrace ts).bind ?_ ?_
  · rintro _ _ ⟨t, rfl, hopen⟩
    exact ⟨[tokenOf (.symbol .rightBrace)], [], .none hopen rfl⟩
  rintro _ _ ts₁ hlt _ ⟨t, rfl, hopen⟩
  obtain ⟨t₁, ts₂, _, hts₁, hclose⟩ | hnone := accept?_settled (only (.symbol .rightBrace)) ts₁
  · refine .cons hts₁ (settled_reads [] (.none hopen (kind_of_only_symbol hclose)) ?_ ?_)
    · intro ts'
      exact Nat.lt_trans (Nat.lt_add_one _) (Nat.lt_add_one _)
    · intro endToken ts' _ _
      simp only [accept?_of_some hclose]
      exact reads_ok
  · apply Settled.congr
    rotate_left
    · intro endToken ts' _ hts'
      simp only [hnone ts' hts']
      rfl
    · refine (settled_someParameters ts₁).map (fun _ _ _ _ _ => reads_ok) ?_
      rintro _ xs ⟨taken, t₁, rfl, hxs, hclose⟩
      exact .some hopen hxs hclose

theorem settled_className (ts : List Token) : Settled IsName className ts := by
  refine .of_eq className.eq_def ?_
  refine (settled_expect .leftBrace ts).bind ?_ ?_
  · rintro _ _ ⟨t, rfl, hopen⟩
    exact ⟨[tokenOf (.identifier "a"), tokenOf (.symbol .rightBrace)], { name := "a" },
      .mk hopen ⟨rfl, rfl⟩ rfl⟩
  rintro _ _ ts₁ _ _ ⟨t, rfl, hopen⟩
  refine (settled_identifier ts₁).bind ?_ ?_
  · rintro _ x ⟨t₁, rfl, hx⟩
    exact ⟨[tokenOf (.symbol .rightBrace)], x, .mk hopen hx rfl⟩
  rintro x _ ts₂ _ _ ⟨t₁, rfl, hx⟩
  refine (settled_expect .rightBrace ts₂).map (fun _ _ _ _ _ => reads_ok) ?_
  rintro _ _ ⟨t₂, rfl, hclose⟩
  exact .mk hopen hx hclose

theorem settled_callableName (ts : List Token) :
    Settled (fun taken names => IsCallableName taken names.1 names.2) callableName ts := by
  refine .of_eq callableName.eq_def ?_
  refine (settled_expect .leftBrace ts).bind ?_ ?_
  · rintro _ _ ⟨t, rfl, hopen⟩
    exact ⟨[tokenOf (.identifier "a"), tokenOf (.symbol .rightBrace)], (none, { name := "a" }),
      .mk hopen ⟨rfl, rfl⟩ rfl⟩
  rintro _ _ ts₁ _ _ ⟨t, rfl, hopen⟩
  refine (settled_identifier ts₁).bind ?_ ?_
  · rintro _ x ⟨t₁, rfl, hx⟩
    exact ⟨[tokenOf (.symbol .rightBrace)], (none, x), .mk hopen hx rfl⟩
  rintro x _ ts₂ _ _ ⟨t₁, rfl, hx⟩
  obtain ⟨t₂, ts₃, _, hts₂, hcolon⟩ | hnone := accept?_settled (only (.symbol .colonColon)) ts₂
  · have hcolon := kind_of_only_symbol hcolon
    refine .cons hts₂ ?_
    simp only [accept?_symbol hcolon]
    refine (settled_identifier ts₃).bind ?_ ?_
    · rintro _ y ⟨t₃, rfl, hy⟩
      exact ⟨[tokenOf (.symbol .rightBrace)], (some x, y), .mk hopen hx hcolon hy rfl⟩
    rintro y _ ts₄ _ _ ⟨t₃, rfl, hy⟩
    refine (settled_expect .rightBrace ts₄).map (f := fun _ => (some x, y))
      (fun _ _ _ _ _ => reads_ok) ?_
    rintro _ _ ⟨t₄, rfl, hclose⟩
    exact .mk hopen hx hcolon hy hclose
  · apply Settled.congr
    rotate_left
    · intro endToken ts' _ hts'
      simp only [hnone ts' hts']
      rfl
    · refine (settled_expect .rightBrace ts₂).map (fun _ _ _ _ _ => reads_ok) ?_
      rintro _ _ ⟨t₂, rfl, hclose⟩
      exact .mk hopen hx hclose

mutual

theorem settled_block (ts : List Token) : Settled IsBlock block ts := by
  cases hend : isAtBlockEnd ts with
  | true =>
    refine settled_reads [] .nil (fun _ => Nat.lt_add_one _) fun endToken ts' _ hts' => ?_
    exact reads_block_nil (by rw [isAtBlockEnd_congr hts', hend])
  | false =>
    have hne (ts' : List Token) (hts' : ts'.head? = ts.head?) : ¬isAtBlockEnd ts' := by
      rw [isAtBlockEnd_congr hts', hend]
      nofun
    refine .congr ?_ fun endToken ts' _ hts' =>
      (block.eq_def endToken ts').trans (if_neg (hne ts' hts'))
    refine (settled_statement ts).bind ?_ ?_
    · intro taken s hs
      exact ⟨[], [s], .cons hs .nil⟩
    intro first taken ts₁ _ hlt₁ hfirst
    exact (settled_block ts₁).map (fun _ _ _ _ _ => reads_ok) fun _ _ h => .cons hfirst h
termination_by (ts.length, 2)

theorem settled_braced (ts : List Token) : Settled IsBraced braced ts := by
  refine .of_eq braced.eq_def ?_
  refine (settled_expect .leftBrace ts).bind ?_ ?_
  · rintro _ _ ⟨t, rfl, hopen⟩
    exact ⟨[tokenOf (.symbol .rightBrace)], [], .mk hopen .nil rfl⟩
  rintro _ _ ts₁ _ hlt₁ ⟨t, rfl, hopen⟩
  refine (settled_block ts₁).bind ?_ ?_
  · intro taken body hbody
    exact ⟨[tokenOf (.symbol .rightBrace)], body, .mk hopen hbody rfl⟩
  intro body taken ts₂ _ _ hbody
  refine (settled_expect .rightBrace ts₂).map (fun _ _ _ _ _ => reads_ok) ?_
  rintro _ _ ⟨t₁, rfl, hclose⟩
  exact .mk hopen hbody hclose
termination_by (ts.length, 0)

theorem settled_statement (ts : List Token) : Settled IsStatement statement ts := by
  refine .of_eq statement.eq_def ?_
  obtain ⟨t, ts₁, _, hts, hif⟩ | hif := accept?_settled (only (.keyword .if)) ts
  · have hlt₁ : ts₁.length < ts.length := by
      rw [hts, List.length_cons]
      omega
    refine .cons hts ?_
    simp only [accept?_of_some hif]
    exact (settled_conditional ts₁).map (fun _ _ _ _ _ => reads_ok)
      fun _ _ h => .conditional (kind_of_only_keyword hif) h
  refine .congr ?_ fun endToken ts' _ hts' => by rw [hif ts' hts']
  obtain ⟨t, ts₁, _, hts, hreturn⟩ | hreturn := accept?_settled (only (.keyword .return)) ts
  · refine .cons hts ?_
    simp only [accept?_of_some hreturn]
    have hreturn := kind_of_only_keyword hreturn
    refine (settled_expression ts₁).bind ?_ ?_
    · intro taken value hvalue
      exact ⟨[tokenOf (.symbol .semicolon)], _, .return hreturn hvalue rfl⟩
    intro value taken ts₂ _ _ hvalue
    refine (settled_expect .semicolon ts₂).map (f := fun _ => .return value)
      (fun _ _ _ _ _ => reads_ok) ?_
    rintro _ _ ⟨t₁, rfl, hclose⟩
    exact .return hreturn hvalue hclose
  refine .congr ?_ fun endToken ts' _ hts' => by rw [hreturn ts' hts']
  obtain ⟨t, ts₁, _, hts, ht⟩ | hnone := accept?_settled (only (.symbol .backslash)) ts
  · apply Settled.congr
    rotate_left
    · intro endToken ts' _ hts'
      exact if_pos ((kind_next_eq hts hts').trans (kind_of_only_symbol ht))
    refine (settled_declaration ts).map (fun _ _ _ _ _ => reads_ok) ?_
    rintro _ d ⟨t, taken, rfl, ht, hd⟩
    exact .declaration ht hd
  · apply Settled.congr
    rotate_left
    · intro endToken ts' hend hts'
      exact if_neg (kind_next_ne hend (hnone ts' hts'))
    refine (settled_expression ts).bind ?_ ?_
    · intro taken value hvalue
      exact ⟨[tokenOf (.symbol .semicolon)], _, .expression hvalue rfl⟩
    intro value taken ts₁ _ _ hvalue
    refine (settled_expect .semicolon ts₁).map (fun _ _ _ _ _ => reads_ok) ?_
    rintro _ _ ⟨t, rfl, hclose⟩
    exact .expression hvalue hclose
termination_by (ts.length, 1)

theorem settled_conditional (ts : List Token) : Settled IsConditional conditional ts := by
  refine .of_eq conditional.eq_def ?_
  refine (settled_expression ts).bind ?_ ?_
  · intro taken condition hcondition
    exact ⟨_, _, .plain hcondition isBraced_nil⟩
  intro condition taken ts₁ _ hlt₁ hcondition
  refine (settled_braced ts₁).bind (fun _ _ h => viable_of_derives (.plain hcondition h)) ?_
  intro consequent taken₁ ts₂ hlt hlt₂ hconsequent
  obtain ⟨t, ts₃, _, hts₂, helse⟩ | hnone := accept?_settled (only (.keyword .else)) ts₂
  · have hlt₃ : ts₃.length < ts₂.length := by
      rw [hts₂, List.length_cons]
      omega
    refine .cons hts₂ ?_
    simp only [accept?_of_some helse]
    have helse := kind_of_only_keyword helse
    obtain ⟨t₁, ts₄, _, hts₃, hif⟩ | hif := accept?_settled (only (.keyword .if)) ts₃
    · have hlt₄ : ts₄.length < ts₃.length := by
        rw [hts₃, List.length_cons]
        omega
      refine .cons hts₃ ?_
      simp only [accept?_of_some hif]
      refine (settled_conditional ts₄).map (f := fun s => .conditional condition consequent [s])
        (fun _ _ _ _ _ => reads_ok) ?_
      intro taken₂ s hs
      exact .elseIf hcondition hconsequent helse (kind_of_only_keyword hif) hs
    refine .congr ?_ fun endToken ts' _ hts' => by rw [hif ts' hts']
    obtain ⟨t₁, ts₄, _, hts₃, hopen⟩ | hnone := accept?_settled (only (.symbol .leftBrace)) ts₃
    · apply Settled.congr
      rotate_left
      · intro endToken ts' _ hts'
        exact if_pos ((kind_next_eq hts₃ hts').trans (kind_of_only_symbol hopen))
      refine (settled_braced ts₃).map (f := fun b => .conditional condition consequent b)
        (fun _ _ _ _ _ => reads_ok) ?_
      intro taken₂ alternative halternative
      exact .otherwise hcondition hconsequent helse halternative
    · refine settled_fails (.unexpected [.symbol .leftBrace, .keyword .if]) ?_ ?_
      · exact ⟨_, _, .otherwise hcondition hconsequent helse isBraced_nil⟩
      · intro endToken ts' hend hts'
        exact if_neg (kind_next_ne hend (hnone ts' hts'))
  · refine settled_reads (.conditional condition consequent none) ?_ ?_ ?_
    · rw [List.append_nil]
      exact .plain hcondition hconsequent
    · intro ts'
      have := hlt ts'
      rw [List.length_append]
      omega
    · intro endToken ts' _ hts'
      simp only [hnone ts' hts']
      exact reads_ok
termination_by (ts.length, 0)

theorem settled_declaration (ts : List Token) :
    Settled (fun taken d => ∃ t ts₁, taken = t :: ts₁ ∧ t.kind = .symbol .backslash ∧
      IsDeclaration ts₁ d) declaration ts := by
  refine .of_eq declaration.eq_def ?_
  refine (settled_expect .backslash ts).bind ?_ ?_
  · rintro _ _ ⟨t, rfl, ht⟩
    obtain ⟨us, d, hd⟩ := viable_nil_declaration
    exact ⟨us, d, t, us, rfl, ht, hd⟩
  rintro _ _ ts₁ _ hlt₁ ⟨t, rfl, ht⟩
  refine .mono ?_ fun ts₁ d (hd : IsDeclaration ts₁ d) => ⟨t, ts₁, rfl, ht, hd⟩
  obtain ⟨t₁, ts₂, name, hts₁, ht₁⟩ | herror := identifier_settled ts₁
  · have hlt₂ : ts₂.length < ts.length := by
      rw [hts₁, List.length_cons] at hlt₁
      omega
    by_cases hclass : name = "class"
    · refine .cons hts₁ ?_
      apply Settled.congr
      rotate_left
      · intro endToken ts' _ _
        simp only [identifier_of_kind ht₁]
        exact if_pos hclass
      have ht₁ : t₁.kind = .identifier "class" := by rw [ht₁, hclass]
      refine (settled_className ts₂).bind ?_ ?_
      · intro taken x hx
        exact ⟨_, _, .class ht₁ hx isBraced_nil⟩
      intro x taken ts₃ _ hlt₃ hx
      exact (settled_braced ts₃).map (fun _ _ _ _ _ => reads_ok) fun _ _ h => .class ht₁ hx h
    by_cases hfun : name = "fun"
    · refine .cons hts₁ ?_
      apply Settled.congr
      rotate_left
      · intro endToken ts' _ _
        simp only [identifier_of_kind ht₁]
        exact (if_neg hclass).trans (if_pos hfun)
      have ht₁ : t₁.kind = .identifier "fun" := by rw [ht₁, hfun]
      refine (settled_callableName ts₂).bind ?_ ?_
      · intro taken names hnames
        exact ⟨_, _, isDeclaration_callable ht₁ hnames isParameters_nil isBraced_nil⟩
      rintro ⟨owner, x⟩ taken ts₃ _ hlt₃ hnames
      refine (settled_parameters ts₃).bind ?_ ?_
      · intro taken₁ xs hxs
        exact ⟨_, _, isDeclaration_callable ht₁ hnames hxs isBraced_nil⟩
      intro xs taken₁ ts₄ _ hlt₄ hxs
      refine (settled_braced ts₄).map (f := callable owner x xs) ?_ ?_
      · intro endToken ts' body rest hlt
        cases owner with
        | none => exact reads_ok
        | some owner => exact reads_ok
      · intro taken₂ body hbody
        exact isDeclaration_callable ht₁ hnames hxs hbody
    · refine settled_fails (.notDeclaration name) viable_nil_declaration ?_
      intro endToken ts' _ hts'
      rw [hts₁] at hts'
      obtain ⟨ts₃, rfl⟩ := List.head?_eq_some_iff.1 hts'
      simp only [identifier_of_kind ht₁]
      exact (if_neg hclass).trans (if_neg hfun)
  · refine settled_fails (.unexpected [.identifier]) viable_nil_declaration ?_
    intro endToken ts' _ hts'
    simp only [herror endToken ts' hts']
    rfl
termination_by (ts.length, 0)

end

end Grammar

end LiterateFun
