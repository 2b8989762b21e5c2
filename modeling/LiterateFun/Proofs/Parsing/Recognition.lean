import LiterateFun.Proofs.Parsing.Soundness

/-!
This module contains the main theorem about the parser: it accepts exactly the programs of the
grammar and answers with the tree that they denote, so that no program denotes two trees.
-/

namespace LiterateFun

def NoEnd (ts : List Token) : Prop :=
  ∀ t ∈ ts, t.kind ≠ .endOfInput

theorem noEnd_nil : NoEnd [] :=
  fun _ h => nomatch h

theorem NoEnd.cons {t : Token} {ts : List Token} (ht : t.kind ≠ .endOfInput) (hts : NoEnd ts) :
    NoEnd (t :: ts) :=
  List.forall_mem_cons.2 ⟨ht, hts⟩

theorem NoEnd.append {ts₁ ts₂ : List Token} (h₁ : NoEnd ts₁) (h₂ : NoEnd ts₂) :
    NoEnd (ts₁ ++ ts₂) :=
  List.forall_mem_append.2 ⟨h₁, h₂⟩

theorem noEnd_singleton {t : Token} (ht : t.kind ≠ .endOfInput) : NoEnd [t] :=
  noEnd_nil.cons ht

theorem NoEnd.between {t₁ t₂ : Token} {ts : List Token} (h₁ : t₁.kind ≠ .endOfInput)
    (hts : NoEnd ts) (h₂ : t₂.kind ≠ .endOfInput) : NoEnd (t₁ :: (ts ++ [t₂])) :=
  (hts.append (noEnd_singleton h₂)).cons h₁

theorem ne_endOfInput_of_symbol {t : Token} {s : Symbol} (h : t.kind = .symbol s) :
    t.kind ≠ .endOfInput := by
  rw [h]
  nofun

theorem ne_endOfInput_of_keyword {t : Token} {k : Keyword} (h : t.kind = .keyword k) :
    t.kind ≠ .endOfInput := by
  rw [h]
  nofun

theorem ne_endOfInput_of_identifier {t : Token} {name : String} (h : t.kind = .identifier name) :
    t.kind ≠ .endOfInput := by
  rw [h]
  nofun

theorem eq_of_append_eq {ts taken rest rest' : List Token} (hts : NoEnd ts) (htaken : NoEnd taken)
    (hrest : ∀ t ∈ rest.head?, t.kind = .endOfInput)
    (hrest' : ∀ t ∈ rest'.head?, t.kind = .endOfInput) (h : ts ++ rest = taken ++ rest') :
    ts = taken := by
  induction ts generalizing taken with
  | nil =>
    cases taken with
    | nil => rfl
    | cons t taken =>
      have hend := hrest t (by rw [← List.nil_append rest, h]; rfl)
      exact absurd hend (htaken t List.mem_cons_self)
  | cons t ts ih =>
    cases taken with
    | nil =>
      have hend := hrest' t (by rw [← List.nil_append rest', ← h]; rfl)
      exact absurd hend (hts t List.mem_cons_self)
    | cons t' taken =>
      obtain ⟨rfl, htail⟩ := List.cons.inj h
      rw [ih (fun t ht => hts t (List.mem_cons_of_mem _ ht))
        (fun t ht => htaken t (List.mem_cons_of_mem _ ht)) htail]

namespace Grammar

mutual

theorem IsExpression.noEnd {ts : List Token} {e : Expr} (h : IsExpression ts e) : NoEnd ts := by
  match h with
  | .binary h => exact h.noEnd
  | .assign hx ht hvalue =>
    exact hx.noEnd.append (hvalue.noEnd.cons (ne_endOfInput_of_symbol ht))
  | .declare hx ht hvalue =>
    exact hx.noEnd.append (hvalue.noEnd.cons (ne_endOfInput_of_symbol ht))

theorem IsBinary.noEnd {ts : List Token} {e : Expr} (h : IsBinary ts e) : NoEnd ts := by
  match h with
  | .postfixed h => exact h.noEnd
  | .operation hleft ht _ hright =>
    exact hleft.noEnd.append (hright.noEnd.cons (ne_endOfInput_of_symbol ht))

theorem IsPostfixed.noEnd {ts : List Token} {e : Expr} (h : IsPostfixed ts e) : NoEnd ts := by
  match h with
  | .primary h => exact h.noEnd
  | .call hcallee hopen hargs hclose =>
    exact hcallee.noEnd.append
      (hargs.noEnd.between (ne_endOfInput_of_symbol hopen) (ne_endOfInput_of_symbol hclose))

theorem IsArguments.noEnd {ts : List Token} {es : List Expr} (h : IsArguments ts es) :
    NoEnd ts := by
  match h with
  | .none => exact noEnd_nil
  | .some h => exact h.noEnd

theorem IsSomeArguments.noEnd {ts : List Token} {es : List Expr} (h : IsSomeArguments ts es) :
    NoEnd ts := by
  match h with
  | .last h => exact h.noEnd
  | .cons he ht hes => exact he.noEnd.append (hes.noEnd.cons (ne_endOfInput_of_symbol ht))

theorem IsPrimary.noEnd {ts : List Token} {e : Expr} (h : IsPrimary ts e) : NoEnd ts := by
  match h with
  | .string h => exact noEnd_singleton (by rw [h]; nofun)
  | .number h => exact noEnd_singleton (by rw [h]; nofun)
  | .identifier h => exact noEnd_singleton (ne_endOfInput_of_identifier h.1)
  | .parens hopen h hclose =>
    exact h.noEnd.between (ne_endOfInput_of_symbol hopen) (ne_endOfInput_of_symbol hclose)

end

theorem IsSomeParameters.noEnd {ts : List Token} {xs : List Identifier}
    (h : IsSomeParameters ts xs) : NoEnd ts := by
  induction h with
  | last h => exact noEnd_singleton (ne_endOfInput_of_identifier h.1)
  | cons h ht _ ih =>
    exact (ih.cons (ne_endOfInput_of_symbol ht)).cons (ne_endOfInput_of_identifier h.1)

theorem IsParameters.noEnd {ts : List Token} {xs : List Identifier} (h : IsParameters ts xs) :
    NoEnd ts := by
  cases h with
  | none hopen hclose =>
    exact noEnd_nil.between (ne_endOfInput_of_symbol hopen) (ne_endOfInput_of_symbol hclose)
  | some hopen h hclose =>
    exact h.noEnd.between (ne_endOfInput_of_symbol hopen) (ne_endOfInput_of_symbol hclose)

theorem IsName.noEnd {ts : List Token} {x : Identifier} (h : IsName ts x) : NoEnd ts := by
  obtain ⟨hopen, h, hclose⟩ := h
  exact (noEnd_singleton (ne_endOfInput_of_identifier h.1)).between
    (ne_endOfInput_of_symbol hopen) (ne_endOfInput_of_symbol hclose)

theorem IsMethodName.noEnd {ts : List Token} {owner name : Identifier}
    (h : IsMethodName ts owner name) : NoEnd ts := by
  obtain ⟨hopen, howner, hcolon, hname, hclose⟩ := h
  have hnames := ((noEnd_singleton (ne_endOfInput_of_identifier hname.1)).cons
    (ne_endOfInput_of_symbol hcolon)).cons (ne_endOfInput_of_identifier howner.1)
  exact hnames.between (ne_endOfInput_of_symbol hopen) (ne_endOfInput_of_symbol hclose)

mutual

theorem IsBlock.noEnd {ts : List Token} {b : Block} (h : IsBlock ts b) : NoEnd ts := by
  match h with
  | .nil => exact noEnd_nil
  | .cons hs hb => exact hs.noEnd.append hb.noEnd

theorem IsBraced.noEnd {ts : List Token} {b : Block} (h : IsBraced ts b) : NoEnd ts := by
  match h with
  | .mk hopen hb hclose =>
    exact hb.noEnd.between (ne_endOfInput_of_symbol hopen) (ne_endOfInput_of_symbol hclose)

theorem IsStatement.noEnd {ts : List Token} {s : Statement} (h : IsStatement ts s) :
    NoEnd ts := by
  match h with
  | .conditional ht h => exact h.noEnd.cons (ne_endOfInput_of_keyword ht)
  | .declaration ht h => exact h.noEnd.cons (ne_endOfInput_of_symbol ht)
  | .return ht h hclose =>
    exact h.noEnd.between (ne_endOfInput_of_keyword ht) (ne_endOfInput_of_symbol hclose)
  | .expression h hclose => exact h.noEnd.append (noEnd_singleton (ne_endOfInput_of_symbol hclose))

theorem IsConditional.noEnd {ts : List Token} {s : Statement} (h : IsConditional ts s) :
    NoEnd ts := by
  match h with
  | .plain hcondition hconsequent => exact hcondition.noEnd.append hconsequent.noEnd
  | .otherwise hcondition hconsequent ht halternative =>
    exact hcondition.noEnd.append
      (hconsequent.noEnd.append (halternative.noEnd.cons (ne_endOfInput_of_keyword ht)))
  | .elseIf hcondition hconsequent helse hif h =>
    exact hcondition.noEnd.append (hconsequent.noEnd.append
      ((h.noEnd.cons (ne_endOfInput_of_keyword hif)).cons (ne_endOfInput_of_keyword helse)))

theorem IsDeclaration.noEnd {ts : List Token} {d : Declaration} (h : IsDeclaration ts d) :
    NoEnd ts := by
  match h with
  | .class ht hname hbody =>
    exact (hname.noEnd.append hbody.noEnd).cons (ne_endOfInput_of_identifier ht)
  | .function ht hname hxs hbody =>
    exact (hname.noEnd.append (hxs.noEnd.append hbody.noEnd)).cons (ne_endOfInput_of_identifier ht)
  | .method ht hname hxs hbody =>
    exact (hname.noEnd.append (hxs.noEnd.append hbody.noEnd)).cons (ne_endOfInput_of_identifier ht)

end

end Grammar

theorem Token.kind_endAfter (last : Option Token) : (Token.endAfter last).kind = .endOfInput := by
  cases last <;> rfl

theorem Block.parse_eq_ok_iff {b : Block} {ts : List Token} :
    Block.parse ts = .ok b ↔
      ∃ rest, Parse.Reads (Parse.block (Token.endAfter ts.getLast?) ts) b rest ∧
        ∀ t ∈ rest.head?, t.kind = .endOfInput := by
  -- Without tokens left, the next token is the one that stands for the end of the input.
  have hnext (rest : List Token) :
      (Parse.next (Token.endAfter ts.getLast?) rest).kind = .endOfInput ↔
        ∀ t ∈ rest.head?, t.kind = .endOfInput := by
    cases rest <;> simp [Parse.next, Token.kind_endAfter]
  unfold Block.parse
  constructor
  · intro h
    cases hb : Parse.block (Token.endAfter ts.getLast?) ts with
    | error e =>
      simp only [hb, bind, Except.bind] at h
      cases h
    | ok parsed =>
      obtain ⟨value, rest, hlt⟩ := parsed
      simp only [hb, bind, Except.bind] at h
      split at h
      next hend =>
        cases h
        exact ⟨rest, ⟨hlt, rfl⟩, (hnext rest).1 hend⟩
      next => cases h
  · rintro ⟨rest, ⟨hlt, hb⟩, hend⟩
    simp only [hb, bind, Except.bind, (hnext rest).2 hend, if_true]

theorem Block.isBlock_of_parse {ts rest : List Token} {b : Block} (hts : NoEnd ts)
    (hrest : ∀ t ∈ rest.head?, t.kind = .endOfInput) (h : Block.parse (ts ++ rest) = .ok b) :
    Grammar.IsBlock ts b := by
  obtain ⟨rest', hreads, hrest'⟩ := Block.parse_eq_ok_iff.1 h
  obtain ⟨taken, heq, hb⟩ := Grammar.takes_block _ hreads
  rw [eq_of_append_eq hts hb.noEnd hrest hrest' heq]
  exact hb

theorem Grammar.IsBlock.parse {ts rest : List Token} {b : Block} (h : Grammar.IsBlock ts b)
    (hrest : ∀ t ∈ rest.head?, t.kind = .endOfInput) : Block.parse (ts ++ rest) = .ok b := by
  have hend : Parse.isAtBlockEnd rest = true := by
    cases rest with
    | nil => rfl
    | cons t rest => simp [Parse.isAtBlockEnd, hrest t rfl]
  exact Block.parse_eq_ok_iff.2 ⟨rest, h.reads hend, hrest⟩

/--
The parser accepts exactly the programs of the grammar, followed by the end of the input, and its
answer is the one tree that they denote.
-/
theorem Block.parse_eq_ok_iff_isBlock {ts rest : List Token} (hts : NoEnd ts)
    (hrest : ∀ t ∈ rest.head?, t.kind = .endOfInput) :
    (∀ b, Block.parse (ts ++ rest) = .ok b ↔ Grammar.IsBlock ts b) ∧
      ∀ b b', Grammar.IsBlock ts b → Grammar.IsBlock ts b' → b = b' := by
  constructor
  · intro b
    exact ⟨Block.isBlock_of_parse hts hrest, fun h => h.parse hrest⟩
  · intro b b' hb hb'
    have hparse := hb.parse hrest
    rw [hb'.parse hrest] at hparse
    exact (Except.ok.inj hparse).symm

/-- The tokens of `x := a - b - a();` -/
def differenceTokens : List Token :=
  [word "x", mark .colonEqual, word "a", mark .minus, word "b", mark .minus, word "a",
    mark .leftParen, mark .rightParen, mark .semicolon]
where
  word (name : String) : Token := { kind := .identifier name, lexeme := name, position := .first }
  mark (s : Symbol) : Token :=
    { kind := .symbol s, lexeme := String.ofList s.text, position := .first }

def differenceProgram : Block :=
  [.expression (.declare x (.binary .subtract
    (.binary .subtract (.identifier a) (.identifier b)) (.call (.identifier a) [])))]
where
  x : Identifier := { name := "x", span := ⟨0, 1⟩ }
  a : Identifier := { name := "a", span := ⟨0, 1⟩ }
  b : Identifier := { name := "b", span := ⟨0, 1⟩ }

open differenceTokens differenceProgram in
theorem isBlock_differenceTokens : Grammar.IsBlock differenceTokens differenceProgram := by
  have hx : Grammar.IsPrimary [word "x"] (.identifier x) := .identifier ⟨rfl, rfl⟩
  have ha : Grammar.IsPrimary [word "a"] (.identifier a) := .identifier ⟨rfl, rfl⟩
  have hb : Grammar.IsPrimary [word "b"] (.identifier b) := .identifier ⟨rfl, rfl⟩
  have hcall : Grammar.IsPostfixed ([word "a"] ++ mark .leftParen :: ([] ++ [mark .rightParen]))
      (.call (.identifier a) []) := .call (.primary ha) rfl .none rfl
  have hab := Grammar.IsBinary.operation (.postfixed (.primary ha))
    (rfl : (mark .minus).kind = _) (rfl : _ = Operator.subtract.text.toList) (.primary hb)
  have hdifference := Grammar.IsBinary.operation hab
    (rfl : (mark .minus).kind = _) (rfl : _ = Operator.subtract.text.toList) hcall
  have hdeclare := Grammar.IsExpression.declare (.postfixed (.primary hx))
    (rfl : (mark .colonEqual).kind = _) (.binary hdifference)
  exact .cons (.expression hdeclare (rfl : (mark .semicolon).kind = _)) .nil

theorem Block.parse_differenceTokens :
    NoEnd differenceTokens ∧ Block.parse (differenceTokens ++ []) = .ok differenceProgram := by
  have hts := isBlock_differenceTokens.noEnd
  exact ⟨hts, ((Block.parse_eq_ok_iff_isBlock hts (by simp)).1 _).2 isBlock_differenceTokens⟩

end LiterateFun
