import LiterateFun.Proofs.Parsing.Rules
import LiterateFun.Proofs.Relabel
import LiterateFun.Proofs.Scanning

/-!
This module contains the independence of the parser from the places of tokens. Tokens without their
places are parsed to the same tree, in which only the spans are different, or show the same error.
-/

namespace LiterateFun

def Span.unplaced (s : Span) : Span where
  start := 0
  stop := s.stop - s.start

def Identifier.unplaced (x : Identifier) : Identifier :=
  { x with span := x.span.unplaced }

def ParseError.unplaced (e : ParseError) : ParseError :=
  { e with token := e.token.unplaced }

theorem Token.span_unplaced (t : Token) : t.unplaced.span = t.span.unplaced := by
  simp [Token.span, Token.unplaced, Span.unplaced, Position.first]

namespace Parse

def Unplaces (view : α → α) (r : Except ParseError (Parsed α n))
    (r' : Except ParseError (Parsed α m)) : Prop :=
  match r with
  | .ok parsed => Reads r' (view parsed.value) (parsed.rest.map Token.unplaced)
  | .error e => ∃ e', r' = .error e' ∧ e'.unplaced = e.unplaced

theorem unplaces_ok {view : α → α} {value value' : α} {rest : List Token} {h : rest.length < n}
    {h' : (rest.map Token.unplaced).length < m} (hvalue : value' = view value) :
    Unplaces view (.ok ⟨value, rest, h⟩) (.ok ⟨value', rest.map Token.unplaced, h'⟩) := by
  rw [hvalue]
  exact reads_ok

theorem Unplaces.bind {view : α → α} {view' : β → β} {r : Except ParseError (Parsed α n)}
    {r' : Except ParseError (Parsed α n')} {f : Parsed α n → Except ParseError (Parsed β m)}
    {f' : Parsed α n' → Except ParseError (Parsed β m')} (hr : Unplaces view r r')
    (hf : ∀ a rest h h',
      Unplaces view' (f ⟨a, rest, h⟩) (f' ⟨view a, rest.map Token.unplaced, h'⟩)) :
    Unplaces view' (r >>= f) (r' >>= f') := by
  cases r with
  | error e =>
    obtain ⟨e', rfl, he⟩ := hr
    exact ⟨e', rfl, he⟩
  | ok parsed =>
    obtain ⟨h', rfl⟩ := hr
    exact hf _ _ _ _

theorem accept?_unplaced (f : TokenKind → Option α) (ts : List Token) :
    (accept? f ts = none ∧ accept? f (ts.map Token.unplaced) = none) ∨
      ∃ a rest h h', accept? f ts = some ⟨a, rest, h⟩ ∧
        accept? f (ts.map Token.unplaced) = some ⟨a, rest.map Token.unplaced, h'⟩ := by
  cases ts with
  | nil => exact .inl ⟨rfl, rfl⟩
  | cons t ts =>
    cases hf : f t.kind with
    | none => exact .inl ⟨accept?_of_none rfl hf, accept?_of_none rfl hf⟩
    | some a =>
      have hunplaced : f t.unplaced.kind = some a := hf
      exact .inr ⟨a, ts, _, _, accept?_of_some hf, accept?_of_some hunplaced⟩

theorem isAtBlockEnd_unplaced (ts : List Token) :
    isAtBlockEnd (ts.map Token.unplaced) = isAtBlockEnd ts := by
  cases ts <;> rfl

section

variable {endToken endToken' : Token}

theorem unplaced_next (hend : endToken'.unplaced = endToken.unplaced)
    (ts : List Token) :
    (next endToken' (ts.map Token.unplaced)).unplaced = (next endToken ts).unplaced := by
  cases ts with
  | nil => exact hend
  | cons => rfl

theorem kind_next_unplaced (hend : endToken'.unplaced = endToken.unplaced)
    (ts : List Token) :
    (next endToken' (ts.map Token.unplaced)).kind = (next endToken ts).kind := by
  have hnext := congrArg Token.kind (unplaced_next hend ts)
  exact hnext

theorem unplaces_error (hend : endToken'.unplaced = endToken.unplaced)
    (cause : ParseError.Cause) (ts : List Token) {view : α → α} :
    Unplaces (n := n) (m := m) view (.error { cause, token := next endToken ts })
      (.error { cause, token := next endToken' (ts.map Token.unplaced) }) := by
  refine ⟨_, rfl, ?_⟩
  rw [ParseError.unplaced, ParseError.unplaced, unplaced_next hend]

theorem unplaces_expect (hend : endToken'.unplaced = endToken.unplaced)
    (c : TokenClass) (ts : List Token) :
    Unplaces id (expect endToken c ts) (expect endToken' c (ts.map Token.unplaced)) := by
  unfold expect
  obtain ⟨hnone, hnone'⟩ | ⟨_, rest, h, h', hsome, hsome'⟩ := accept?_unplaced (only c) ts
  · rw [hnone, hnone']
    exact unplaces_error hend _ ts
  · rw [hsome, hsome']
    exact unplaces_ok rfl

theorem unplaces_identifier (hend : endToken'.unplaced = endToken.unplaced)
    (ts : List Token) :
    Unplaces Identifier.unplaced (identifier endToken ts)
      (identifier endToken' (ts.map Token.unplaced)) := by
  cases ts with
  | nil => exact unplaces_error hend _ []
  | cons t ts =>
    obtain ⟨kind, lexeme, position⟩ := t
    cases kind with
    | identifier name =>
      apply unplaces_ok
      rw [Identifier.unplaced, ← Token.span_unplaced]
      rfl
    | _ => exact unplaces_error hend _ (_ :: ts)

mutual

theorem unplaces_expression (hend : endToken'.unplaced = endToken.unplaced)
    (ts : List Token) :
    Unplaces (Expr.relabel Identifier.unplaced) (expression endToken ts)
      (expression endToken' (ts.map Token.unplaced)) := by
  rw [expression, expression]
  apply (unplaces_binary hend ts).bind
  intro left ts₁ h₁ h₁'
  obtain ⟨hnone, hnone'⟩ | ⟨a, ts₂, h₂, h₂', hsome, hsome'⟩ :=
    accept?_unplaced Assignment.ofKind? ts₁
  · simp only [hnone, hnone']
    exact unplaces_ok rfl
  · simp only [hsome, hsome']
    cases left with
    | identifier x =>
      apply (unplaces_expression hend ts₂).bind
      intro value ts₃ h₃ h₃'
      cases a <;> exact unplaces_ok rfl
    | _ => exact unplaces_error hend _ ts₁
termination_by (ts.length, 3)

theorem unplaces_binary (hend : endToken'.unplaced = endToken.unplaced)
    (ts : List Token) :
    Unplaces (Expr.relabel Identifier.unplaced) (binary endToken ts)
      (binary endToken' (ts.map Token.unplaced)) := by
  rw [binary, binary]
  apply (unplaces_postfixed hend ts).bind
  intro left ts₁ h₁ h₁'
  apply (unplaces_binaryRest hend left ts₁).bind
  intro value ts₂ h₂ h₂'
  exact unplaces_ok rfl
termination_by (ts.length, 2)

theorem unplaces_binaryRest (hend : endToken'.unplaced = endToken.unplaced)
    (left : Expr) (ts : List Token) :
    Unplaces (Expr.relabel Identifier.unplaced) (binaryRest endToken left ts)
      (binaryRest endToken' (left.relabel Identifier.unplaced) (ts.map Token.unplaced)) := by
  rw [binaryRest, binaryRest]
  obtain ⟨hnone, hnone'⟩ | ⟨op, ts₁, h₁, h₁', hsome, hsome'⟩ :=
    accept?_unplaced Operator.ofKind? ts
  · simp only [hnone, hnone']
    exact unplaces_ok rfl
  · simp only [hsome, hsome']
    apply (unplaces_postfixed hend ts₁).bind
    intro right ts₂ h₂ h₂'
    apply (unplaces_binaryRest hend (.binary op left right) ts₂).bind
    intro value ts₃ h₃ h₃'
    exact unplaces_ok rfl
termination_by (ts.length, 0)

theorem unplaces_postfixed (hend : endToken'.unplaced = endToken.unplaced)
    (ts : List Token) :
    Unplaces (Expr.relabel Identifier.unplaced) (postfixed endToken ts)
      (postfixed endToken' (ts.map Token.unplaced)) := by
  rw [postfixed, postfixed]
  apply (unplaces_primary hend ts).bind
  intro callee ts₁ h₁ h₁'
  apply (unplaces_postfixedRest hend callee ts₁).bind
  intro value ts₂ h₂ h₂'
  exact unplaces_ok rfl
termination_by (ts.length, 1)

theorem unplaces_postfixedRest (hend : endToken'.unplaced = endToken.unplaced)
    (callee : Expr) (ts : List Token) :
    Unplaces (Expr.relabel Identifier.unplaced) (postfixedRest endToken callee ts)
      (postfixedRest endToken' (callee.relabel Identifier.unplaced) (ts.map Token.unplaced)) := by
  rw [postfixedRest, postfixedRest]
  obtain ⟨hnone, hnone'⟩ | ⟨_, ts₁, h₁, h₁', hsome, hsome'⟩ :=
    accept?_unplaced (only (.symbol .leftParen)) ts
  · simp only [hnone, hnone']
    exact unplaces_ok rfl
  · simp only [hsome, hsome']
    apply (unplaces_arguments hend ts₁).bind
    intro args ts₂ h₂ h₂'
    apply (unplaces_postfixedRest hend (.call callee args) ts₂).bind
    intro value ts₃ h₃ h₃'
    exact unplaces_ok rfl
termination_by (ts.length, 0)

theorem unplaces_arguments (hend : endToken'.unplaced = endToken.unplaced)
    (ts : List Token) :
    Unplaces (Expr.relabelList Identifier.unplaced) (arguments endToken ts)
      (arguments endToken' (ts.map Token.unplaced)) := by
  rw [arguments, arguments]
  obtain ⟨hnone, hnone'⟩ | ⟨_, ts₁, h₁, h₁', hsome, hsome'⟩ :=
    accept?_unplaced (only (.symbol .rightParen)) ts
  · simp only [hnone, hnone']
    exact unplaces_someArguments hend ts
  · simp only [hsome, hsome']
    exact unplaces_ok rfl
termination_by (ts.length, 5)

theorem unplaces_someArguments (hend : endToken'.unplaced = endToken.unplaced)
    (ts : List Token) :
    Unplaces (Expr.relabelList Identifier.unplaced) (someArguments endToken ts)
      (someArguments endToken' (ts.map Token.unplaced)) := by
  rw [someArguments, someArguments]
  apply (unplaces_expression hend ts).bind
  intro first ts₁ h₁ h₁'
  obtain ⟨hnone, hnone'⟩ | ⟨_, ts₂, h₂, h₂', hsome, hsome'⟩ :=
    accept?_unplaced (only (.symbol .comma)) ts₁
  · simp only [hnone, hnone']
    apply (unplaces_expect hend _ ts₁).bind
    intro _ ts₂ h₂ h₂'
    exact unplaces_ok rfl
  · simp only [hsome, hsome']
    apply (unplaces_someArguments hend ts₂).bind
    intro others ts₃ h₃ h₃'
    exact unplaces_ok rfl
termination_by (ts.length, 4)

theorem unplaces_primary (hend : endToken'.unplaced = endToken.unplaced)
    (ts : List Token) :
    Unplaces (Expr.relabel Identifier.unplaced) (primary endToken ts)
      (primary endToken' (ts.map Token.unplaced)) := by
  rw [primary.eq_def, primary.eq_def endToken']
  cases ts with
  | nil => exact unplaces_error hend _ []
  | cons t ts =>
    obtain ⟨kind, lexeme, position⟩ := t
    cases kind with
    | string => exact unplaces_ok rfl
    | number => exact unplaces_ok rfl
    | identifier name =>
      apply unplaces_ok
      rw [Expr.relabel, Identifier.unplaced, ← Token.span_unplaced]
      rfl
    | symbol s =>
      cases s with
      | leftParen =>
        apply (unplaces_expression hend ts).bind
        intro value ts₁ h₁ h₁'
        apply (unplaces_expect hend _ ts₁).bind
        intro _ ts₂ h₂ h₂'
        exact unplaces_ok rfl
      | _ => exact unplaces_error hend _ (_ :: ts)
    | _ => exact unplaces_error hend _ (_ :: ts)
termination_by (ts.length, 0)

end

theorem unplaces_someParameters (hend : endToken'.unplaced = endToken.unplaced)
    (ts : List Token) :
    Unplaces (List.map Identifier.unplaced) (someParameters endToken ts)
      (someParameters endToken' (ts.map Token.unplaced)) := by
  rw [someParameters, someParameters]
  apply (unplaces_identifier hend ts).bind
  intro first ts₁ h₁ h₁'
  obtain ⟨hnone, hnone'⟩ | ⟨_, ts₂, h₂, h₂', hsome, hsome'⟩ :=
    accept?_unplaced (only (.symbol .comma)) ts₁
  · simp only [hnone, hnone']
    apply (unplaces_expect hend _ ts₁).bind
    intro _ ts₂ h₂ h₂'
    exact unplaces_ok rfl
  · simp only [hsome, hsome']
    apply (unplaces_someParameters hend ts₂).bind
    intro others ts₃ h₃ h₃'
    exact unplaces_ok rfl
termination_by ts.length

theorem unplaces_parameters (hend : endToken'.unplaced = endToken.unplaced)
    (ts : List Token) :
    Unplaces (List.map Identifier.unplaced) (parameters endToken ts)
      (parameters endToken' (ts.map Token.unplaced)) := by
  rw [parameters, parameters]
  apply (unplaces_expect hend _ ts).bind
  intro _ ts₁ h₁ h₁'
  obtain ⟨hnone, hnone'⟩ | ⟨_, ts₂, h₂, h₂', hsome, hsome'⟩ :=
    accept?_unplaced (only (.symbol .rightBrace)) ts₁
  · simp only [hnone, hnone']
    apply (unplaces_someParameters hend ts₁).bind
    intro names ts₂ h₂ h₂'
    exact unplaces_ok rfl
  · simp only [hsome, hsome']
    exact unplaces_ok rfl

theorem unplaces_callableName (hend : endToken'.unplaced = endToken.unplaced)
    (ts : List Token) :
    Unplaces (Prod.map (Option.map Identifier.unplaced) Identifier.unplaced)
      (callableName endToken ts) (callableName endToken' (ts.map Token.unplaced)) := by
  rw [callableName, callableName]
  apply (unplaces_expect hend _ ts).bind
  intro _ ts₁ h₁ h₁'
  apply (unplaces_identifier hend ts₁).bind
  intro first ts₂ h₂ h₂'
  obtain ⟨hnone, hnone'⟩ | ⟨_, ts₃, h₃, h₃', hsome, hsome'⟩ :=
    accept?_unplaced (only (.symbol .colonColon)) ts₂
  · simp only [hnone, hnone']
    apply (unplaces_expect hend _ ts₂).bind
    intro _ ts₃ h₃ h₃'
    exact unplaces_ok rfl
  · simp only [hsome, hsome']
    apply (unplaces_identifier hend ts₃).bind
    intro name ts₄ h₄ h₄'
    apply (unplaces_expect hend _ ts₄).bind
    intro _ ts₅ h₅ h₅'
    exact unplaces_ok rfl

theorem unplaces_className (hend : endToken'.unplaced = endToken.unplaced)
    (ts : List Token) :
    Unplaces Identifier.unplaced (className endToken ts)
      (className endToken' (ts.map Token.unplaced)) := by
  rw [className, className]
  apply (unplaces_expect hend _ ts).bind
  intro _ ts₁ h₁ h₁'
  apply (unplaces_identifier hend ts₁).bind
  intro name ts₂ h₂ h₂'
  apply (unplaces_expect hend _ ts₂).bind
  intro _ ts₃ h₃ h₃'
  exact unplaces_ok rfl

mutual

theorem unplaces_block (hend : endToken'.unplaced = endToken.unplaced)
    (ts : List Token) :
    Unplaces (relabelStatements Identifier.unplaced) (block endToken ts)
      (block endToken' (ts.map Token.unplaced)) := by
  rw [block, block, isAtBlockEnd_unplaced]
  cases isAtBlockEnd ts with
  | true => exact unplaces_ok rfl
  | false =>
    apply (unplaces_statement hend ts).bind
    intro first ts₁ h₁ h₁'
    apply (unplaces_block hend ts₁).bind
    intro others ts₂ h₂ h₂'
    exact unplaces_ok rfl
termination_by (ts.length, 2)

theorem unplaces_braced (hend : endToken'.unplaced = endToken.unplaced)
    (ts : List Token) :
    Unplaces (relabelStatements Identifier.unplaced) (braced endToken ts)
      (braced endToken' (ts.map Token.unplaced)) := by
  rw [braced, braced]
  apply (unplaces_expect hend _ ts).bind
  intro _ ts₁ h₁ h₁'
  apply (unplaces_block hend ts₁).bind
  intro body ts₂ h₂ h₂'
  apply (unplaces_expect hend _ ts₂).bind
  intro _ ts₃ h₃ h₃'
  exact unplaces_ok rfl
termination_by (ts.length, 0)

theorem unplaces_statement (hend : endToken'.unplaced = endToken.unplaced)
    (ts : List Token) :
    Unplaces (Statement.relabel Identifier.unplaced) (statement endToken ts)
      (statement endToken' (ts.map Token.unplaced)) := by
  rw [statement, statement, kind_next_unplaced hend]
  obtain ⟨hnone, hnone'⟩ | ⟨_, ts₁, h₁, h₁', hsome, hsome'⟩ :=
    accept?_unplaced (only (.keyword .if)) ts
  · obtain ⟨hnone₁, hnone₁'⟩ | ⟨_, ts₁, h₁, h₁', hsome, hsome'⟩ :=
      accept?_unplaced (only (.keyword .return)) ts
    · simp only [hnone, hnone', hnone₁, hnone₁']
      split
      · apply (unplaces_declaration hend ts).bind
        intro d ts₁ h₁ h₁'
        exact unplaces_ok rfl
      · apply (unplaces_expression hend ts).bind
        intro value ts₁ h₁ h₁'
        apply (unplaces_expect hend _ ts₁).bind
        intro _ ts₂ h₂ h₂'
        exact unplaces_ok rfl
    · simp only [hnone, hnone', hsome, hsome']
      apply (unplaces_expression hend ts₁).bind
      intro value ts₂ h₂ h₂'
      apply (unplaces_expect hend _ ts₂).bind
      intro _ ts₃ h₃ h₃'
      exact unplaces_ok rfl
  · simp only [hsome, hsome']
    apply (unplaces_conditional hend ts₁).bind
    intro value ts₂ h₂ h₂'
    exact unplaces_ok rfl
termination_by (ts.length, 1)

theorem unplaces_conditional (hend : endToken'.unplaced = endToken.unplaced)
    (ts : List Token) :
    Unplaces (Statement.relabel Identifier.unplaced) (conditional endToken ts)
      (conditional endToken' (ts.map Token.unplaced)) := by
  rw [conditional, conditional]
  apply (unplaces_expression hend ts).bind
  intro condition ts₁ h₁ h₁'
  apply (unplaces_braced hend ts₁).bind
  intro consequent ts₂ h₂ h₂'
  obtain ⟨hnone, hnone'⟩ | ⟨_, ts₃, h₃, h₃', hsome, hsome'⟩ :=
    accept?_unplaced (only (.keyword .else)) ts₂
  · simp only [hnone, hnone']
    exact unplaces_ok rfl
  · obtain ⟨hnone, hnone'⟩ | ⟨_, ts₄, h₄, h₄', hsome₁, hsome₁'⟩ :=
      accept?_unplaced (only (.keyword .if)) ts₃
    · simp only [hsome, hsome', hnone, hnone', kind_next_unplaced hend]
      split
      · apply (unplaces_braced hend ts₃).bind
        intro alternative ts₄ h₄ h₄'
        exact unplaces_ok rfl
      · exact unplaces_error hend _ ts₃
    · simp only [hsome, hsome', hsome₁, hsome₁']
      apply (unplaces_conditional hend ts₄).bind
      intro nested ts₅ h₅ h₅'
      exact unplaces_ok rfl
termination_by (ts.length, 0)

theorem unplaces_declaration (hend : endToken'.unplaced = endToken.unplaced)
    (ts : List Token) :
    Unplaces (Declaration.relabel Identifier.unplaced) (declaration endToken ts)
      (declaration endToken' (ts.map Token.unplaced)) := by
  rw [declaration, declaration]
  apply (unplaces_expect hend _ ts).bind
  intro _ ts₁ h₁ h₁'
  apply (unplaces_identifier hend ts₁).bind
  intro word ts₂ h₂ h₂'
  have hword : word.unplaced.name = word.name := rfl
  simp only [hword]
  split
  · apply (unplaces_className hend ts₂).bind
    intro name ts₃ h₃ h₃'
    apply (unplaces_braced hend ts₃).bind
    intro body ts₄ h₄ h₄'
    exact unplaces_ok rfl
  · split
    · apply (unplaces_callableName hend ts₂).bind
      intro names ts₃ h₃ h₃'
      apply (unplaces_parameters hend ts₃).bind
      intro parameters ts₄ h₄ h₄'
      apply (unplaces_braced hend ts₄).bind
      intro body ts₅ h₅ h₅'
      obtain ⟨owner, name⟩ := names
      cases owner <;> exact unplaces_ok rfl
    · exact unplaces_error hend _ ts₁
termination_by (ts.length, 0)

end

end

end Parse

theorem Token.unplaced_endAfter (last last' : Option Token) :
    (endAfter last).unplaced = (endAfter last').unplaced := by
  cases last <;> cases last' <;> rfl

def Block.unplaced (b : Block) : Block :=
  relabelStatements Identifier.unplaced b

theorem Block.parse_unplaced (ts : List Token) :
    (Block.parse (ts.map Token.unplaced)).mapError ParseError.unplaced =
      ((Block.parse ts).map Block.unplaced).mapError ParseError.unplaced := by
  have hend := Token.unplaced_endAfter (ts.map Token.unplaced).getLast? ts.getLast?
  have hblock := Parse.unplaces_block hend ts
  unfold Block.parse
  cases hresult : Parse.block (Token.endAfter ts.getLast?) ts with
  | error e =>
    rw [hresult] at hblock
    obtain ⟨e', hresult', he⟩ := hblock
    simp only [hresult, hresult']
    exact congrArg Except.error he
  | ok parsed =>
    rw [hresult] at hblock
    obtain ⟨h', hresult'⟩ := hblock
    have hkind := Parse.kind_next_unplaced hend parsed.rest
    simp only [hresult, hresult', bind, Except.bind, hkind]
    split
    · rfl
    · have hnext := Parse.unplaced_next hend parsed.rest
      simp only [Except.map, Except.mapError, Parse.unexpected, ParseError.unplaced, hnext]

end LiterateFun
