import LiterateFun.Program.Parse

/-!
This module contains what each rule of the grammar reads from the start of a list of tokens, in
terms of what the rules that it consists of read.
-/

namespace LiterateFun

namespace Parse

def Reads (r : Except ParseError (Parsed α n)) (value : α) (rest : List Token) : Prop :=
  ∃ h, r = .ok ⟨value, rest, h⟩

theorem reads_ok {value : α} {rest : List Token} {h : rest.length < n} :
    Reads (.ok (⟨value, rest, h⟩ : Parsed α n)) value rest :=
  ⟨h, rfl⟩

theorem reads_bind {r : Except ParseError (Parsed α n)}
    {f : Parsed α n → Except ParseError (Parsed β m)} {a : α} {b : β} {rest₁ rest₂ : List Token}
    (hr : Reads r a rest₁) (hf : ∀ h, Reads (f ⟨a, rest₁, h⟩) b rest₂) :
    Reads (r >>= f) b rest₂ := by
  obtain ⟨h, rfl⟩ := hr
  exact hf h

variable {endToken t t₁ t₂ t₃ : Token} {ts ts₁ ts₂ ts₃ ts₄ : List Token}

theorem accept?_of_some {f : TokenKind → Option α} {value : α} (h : f t.kind = some value) :
    accept? f (t :: ts) = some ⟨value, ts, Nat.lt_add_one ts.length⟩ := by
  simp [accept?, h]

theorem accept?_of_none {f : TokenKind → Option α} {kind : TokenKind} (ht : t.kind = kind)
    (h : f kind = none) : accept? f (t :: ts) = none := by
  simp [accept?, ht, h]

theorem accept?_symbol {s : Symbol} (h : t.kind = .symbol s) :
    accept? (only (.symbol s)) (t :: ts) = some ⟨(), ts, Nat.lt_add_one ts.length⟩ := by
  apply accept?_of_some
  simp [only, h, TokenKind.class]

theorem accept?_keyword {k : Keyword} (h : t.kind = .keyword k) :
    accept? (only (.keyword k)) (t :: ts) = some ⟨(), ts, Nat.lt_add_one ts.length⟩ := by
  apply accept?_of_some
  simp [only, h, TokenKind.class]

theorem reads_expect {s : Symbol} (h : t.kind = .symbol s) :
    Reads (expect endToken (.symbol s) (t :: ts)) () ts := by
  rw [expect, accept?_symbol h]
  exact reads_ok

theorem reads_identifier {name : String} (h : t.kind = .identifier name) :
    Reads (identifier endToken (t :: ts)) { name, span := t.span } ts := by
  obtain ⟨kind, lexeme, position⟩ := t
  cases h
  exact reads_ok

def endsBinary (kind : TokenKind) : Bool :=
  only (.symbol .leftParen) kind = none ∧ Operator.ofKind? kind = none

def endsExpression (kind : TokenKind) : Bool :=
  endsBinary kind ∧ Assignment.ofKind? kind = none

theorem reads_expression {value : Expr} (h : Reads (binary endToken ts) value ts₁)
    (hend : accept? Assignment.ofKind? ts₁ = none) :
    Reads (expression endToken ts) value ts₁ := by
  rw [expression]
  apply reads_bind h
  intro hlt
  simp only [hend]
  exact reads_ok

theorem reads_expression_assignment {a : Assignment} {x : Identifier} {value : Expr}
    (hleft : Reads (binary endToken ts) (.identifier x) (t :: ts₁))
    (ha : Assignment.ofKind? t.kind = some a) (hvalue : Reads (expression endToken ts₁) value ts₂) :
    Reads (expression endToken ts) (a.expr x value) ts₂ := by
  rw [expression]
  apply reads_bind hleft
  intro hlt
  simp only [accept?_of_some ha]
  apply reads_bind hvalue
  intro hlt
  exact reads_ok

theorem reads_binary {left value : Expr} (hleft : Reads (postfixed endToken ts) left ts₁)
    (hrest : Reads (binaryRest endToken left ts₁) value ts₂) :
    Reads (binary endToken ts) value ts₂ := by
  rw [binary]
  apply reads_bind hleft
  intro hlt
  apply reads_bind hrest
  intro hlt
  exact reads_ok

theorem reads_binaryRest_nil {left : Expr} (hend : accept? Operator.ofKind? ts = none) :
    Reads (binaryRest endToken left ts) left ts := by
  rw [binaryRest, hend]
  exact reads_ok

theorem reads_binaryRest_cons {op : Operator} {left right value : Expr}
    (hop : Operator.ofKind? t.kind = some op) (hright : Reads (postfixed endToken ts) right ts₁)
    (hrest : Reads (binaryRest endToken (.binary op left right) ts₁) value ts₂) :
    Reads (binaryRest endToken left (t :: ts)) value ts₂ := by
  rw [binaryRest, accept?_of_some hop]
  apply reads_bind hright
  intro hlt
  apply reads_bind hrest
  intro hlt
  exact reads_ok

theorem reads_postfixed {callee value : Expr} (hcallee : Reads (primary endToken ts) callee ts₁)
    (hrest : Reads (postfixedRest endToken callee ts₁) value ts₂) :
    Reads (postfixed endToken ts) value ts₂ := by
  rw [postfixed]
  apply reads_bind hcallee
  intro hlt
  apply reads_bind hrest
  intro hlt
  exact reads_ok

theorem reads_postfixedRest_nil {callee : Expr}
    (hend : accept? (only (.symbol .leftParen)) ts = none) :
    Reads (postfixedRest endToken callee ts) callee ts := by
  rw [postfixedRest, hend]
  exact reads_ok

theorem reads_postfixedRest_cons {callee value : Expr} {args : List Expr}
    (hopen : t.kind = .symbol .leftParen) (hargs : Reads (arguments endToken ts) args ts₁)
    (hrest : Reads (postfixedRest endToken (.call callee args) ts₁) value ts₂) :
    Reads (postfixedRest endToken callee (t :: ts)) value ts₂ := by
  rw [postfixedRest, accept?_symbol hopen]
  apply reads_bind hargs
  intro hlt
  apply reads_bind hrest
  intro hlt
  exact reads_ok

theorem reads_arguments_nil (hclose : t.kind = .symbol .rightParen) :
    Reads (arguments endToken (t :: ts)) [] ts := by
  rw [arguments, accept?_symbol hclose]
  exact reads_ok

theorem reads_arguments {args : List Expr}
    (hstart : accept? (only (.symbol .rightParen)) ts = none)
    (hargs : Reads (someArguments endToken ts) args ts₁) :
    Reads (arguments endToken ts) args ts₁ := by
  rw [arguments, hstart]
  exact hargs

theorem reads_someArguments_last {e : Expr} (he : Reads (expression endToken ts) e (t :: ts₁))
    (hclose : t.kind = .symbol .rightParen) :
    Reads (someArguments endToken ts) [e] ts₁ := by
  rw [someArguments]
  apply reads_bind he
  intro hlt
  simp only [accept?_of_none (f := only (.symbol .comma)) hclose rfl]
  apply reads_bind (reads_expect hclose)
  intro hlt
  exact reads_ok

theorem reads_someArguments_cons {e : Expr} {es : List Expr}
    (he : Reads (expression endToken ts) e (t :: ts₁)) (hcomma : t.kind = .symbol .comma)
    (hes : Reads (someArguments endToken ts₁) es ts₂) :
    Reads (someArguments endToken ts) (e :: es) ts₂ := by
  rw [someArguments]
  apply reads_bind he
  intro hlt
  simp only [accept?_symbol hcomma]
  apply reads_bind hes
  intro hlt
  exact reads_ok

theorem reads_primary_string {value : String} (h : t.kind = .string value) :
    Reads (primary endToken (t :: ts)) (.string value) ts := by
  obtain ⟨kind, lexeme, position⟩ := t
  cases h
  rw [primary]
  exact reads_ok

theorem reads_primary_number {value : Number} (h : t.kind = .number value) :
    Reads (primary endToken (t :: ts)) (.number value) ts := by
  obtain ⟨kind, lexeme, position⟩ := t
  cases h
  rw [primary]
  exact reads_ok

theorem reads_primary_identifier {name : String} (h : t.kind = .identifier name) :
    Reads (primary endToken (t :: ts)) (.identifier { name, span := t.span }) ts := by
  obtain ⟨kind, lexeme, position⟩ := t
  cases h
  rw [primary]
  exact reads_ok

theorem reads_primary_parens {value : Expr} (hopen : t.kind = .symbol .leftParen)
    (hvalue : Reads (expression endToken ts) value (t₁ :: ts₁))
    (hclose : t₁.kind = .symbol .rightParen) :
    Reads (primary endToken (t :: ts)) value ts₁ := by
  obtain ⟨kind, lexeme, position⟩ := t
  cases hopen
  rw [primary]
  apply reads_bind hvalue
  intro hlt
  apply reads_bind (reads_expect hclose)
  intro hlt
  exact reads_ok

theorem reads_someParameters_last {x : Identifier}
    (hx : Reads (identifier endToken ts) x (t :: ts₁))
    (hclose : t.kind = .symbol .rightBrace) :
    Reads (someParameters endToken ts) [x] ts₁ := by
  rw [someParameters]
  apply reads_bind hx
  intro hlt
  simp only [accept?_of_none (f := only (.symbol .comma)) hclose rfl]
  apply reads_bind (reads_expect hclose)
  intro hlt
  exact reads_ok

theorem reads_someParameters_cons {x : Identifier} {xs : List Identifier}
    (hx : Reads (identifier endToken ts) x (t :: ts₁)) (hcomma : t.kind = .symbol .comma)
    (hxs : Reads (someParameters endToken ts₁) xs ts₂) :
    Reads (someParameters endToken ts) (x :: xs) ts₂ := by
  rw [someParameters]
  apply reads_bind hx
  intro hlt
  simp only [accept?_symbol hcomma]
  apply reads_bind hxs
  intro hlt
  exact reads_ok

theorem reads_parameters_nil (hopen : t.kind = .symbol .leftBrace)
    (hclose : t₁.kind = .symbol .rightBrace) :
    Reads (parameters endToken (t :: t₁ :: ts)) [] ts := by
  rw [parameters]
  apply reads_bind (reads_expect hopen)
  intro hlt
  simp only [accept?_symbol hclose]
  exact reads_ok

theorem reads_parameters {xs : List Identifier} (hopen : t.kind = .symbol .leftBrace)
    (hstart : accept? (only (.symbol .rightBrace)) ts = none)
    (hxs : Reads (someParameters endToken ts) xs ts₁) :
    Reads (parameters endToken (t :: ts)) xs ts₁ := by
  rw [parameters]
  apply reads_bind (reads_expect hopen)
  intro hlt
  simp only [hstart]
  apply reads_bind hxs
  intro hlt
  exact reads_ok

theorem reads_callableName_function {name : Identifier} (hopen : t.kind = .symbol .leftBrace)
    (hname : Reads (identifier endToken ts) name (t₁ :: ts₁))
    (hclose : t₁.kind = .symbol .rightBrace) :
    Reads (callableName endToken (t :: ts)) (none, name) ts₁ := by
  rw [callableName]
  apply reads_bind (reads_expect hopen)
  intro hlt
  apply reads_bind hname
  intro hlt
  simp only [accept?_of_none (f := only (.symbol .colonColon)) hclose rfl]
  apply reads_bind (reads_expect hclose)
  intro hlt
  exact reads_ok

theorem reads_callableName_method {owner name : Identifier}
    (hopen : t.kind = .symbol .leftBrace)
    (howner : Reads (identifier endToken ts) owner (t₁ :: ts₁))
    (hcolon : t₁.kind = .symbol .colonColon)
    (hname : Reads (identifier endToken ts₁) name (t₂ :: ts₂))
    (hclose : t₂.kind = .symbol .rightBrace) :
    Reads (callableName endToken (t :: ts)) (some owner, name) ts₂ := by
  rw [callableName]
  apply reads_bind (reads_expect hopen)
  intro hlt
  apply reads_bind howner
  intro hlt
  simp only [accept?_symbol hcolon]
  apply reads_bind hname
  intro hlt
  apply reads_bind (reads_expect hclose)
  intro hlt
  exact reads_ok

theorem reads_className {name : Identifier} (hopen : t.kind = .symbol .leftBrace)
    (hname : Reads (identifier endToken ts) name (t₁ :: ts₁))
    (hclose : t₁.kind = .symbol .rightBrace) :
    Reads (className endToken (t :: ts)) name ts₁ := by
  rw [className]
  apply reads_bind (reads_expect hopen)
  intro hlt
  apply reads_bind hname
  intro hlt
  apply reads_bind (reads_expect hclose)
  intro hlt
  exact reads_ok

theorem isAtBlockEnd_of_rightBrace (h : t.kind = .symbol .rightBrace) :
    isAtBlockEnd (t :: ts) := by
  simp [isAtBlockEnd, h]

/-- A statement can start with a token of the kind, and can neither end nor go on with it. -/
def startsStatement (kind : TokenKind) : Bool :=
  kind ≠ .symbol .rightBrace ∧ kind ≠ .endOfInput ∧ only (.keyword .else) kind = none

theorem not_isAtBlockEnd_of_starts (ht : startsStatement t.kind) : ¬isAtBlockEnd (t :: ts) := by
  simp only [startsStatement, decide_eq_true_eq] at ht
  simp [isAtBlockEnd, ht]

theorem accept?_else_of_starts (ht : startsStatement t.kind) :
    accept? (only (.keyword .else)) (t :: ts) = none := by
  simp only [startsStatement, decide_eq_true_eq] at ht
  exact accept?_of_none rfl ht.2.2

theorem accept?_else_of_isAtBlockEnd (h : isAtBlockEnd ts) :
    accept? (only (.keyword .else)) ts = none := by
  cases ts with
  | nil => rfl
  | cons t ts =>
    simp only [isAtBlockEnd, decide_eq_true_eq] at h
    cases h with
    | inl h => exact accept?_of_none h rfl
    | inr h => exact accept?_of_none h rfl

theorem reads_block_nil (hend : isAtBlockEnd ts) : Reads (block endToken ts) [] ts := by
  rw [block]
  simp only [hend, if_true]
  exact reads_ok

theorem reads_block_cons {s : Statement} {b : Block} (hstart : ¬isAtBlockEnd ts)
    (hs : Reads (statement endToken ts) s ts₁) (hb : Reads (block endToken ts₁) b ts₂) :
    Reads (block endToken ts) (s :: b) ts₂ := by
  rw [block]
  simp only [hstart]
  apply reads_bind hs
  intro hlt
  apply reads_bind hb
  intro hlt
  exact reads_ok

theorem reads_braced {b : Block} (hopen : t.kind = .symbol .leftBrace)
    (hb : Reads (block endToken ts) b (t₁ :: ts₁)) (hclose : t₁.kind = .symbol .rightBrace) :
    Reads (braced endToken (t :: ts)) b ts₁ := by
  rw [braced]
  apply reads_bind (reads_expect hopen)
  intro hlt
  apply reads_bind hb
  intro hlt
  apply reads_bind (reads_expect hclose)
  intro hlt
  exact reads_ok

theorem reads_statement_conditional {s : Statement} (hif : t.kind = .keyword .if)
    (hs : Reads (conditional endToken ts) s ts₁) :
    Reads (statement endToken (t :: ts)) s ts₁ := by
  rw [statement, accept?_keyword hif]
  apply reads_bind hs
  intro hlt
  exact reads_ok

theorem reads_statement_return {value : Expr} (hreturn : t.kind = .keyword .return)
    (hvalue : Reads (expression endToken ts) value (t₁ :: ts₁))
    (hclose : t₁.kind = .symbol .semicolon) :
    Reads (statement endToken (t :: ts)) (.return value) ts₁ := by
  rw [statement, accept?_of_none (f := only (.keyword .if)) hreturn rfl]
  simp only [accept?_keyword hreturn]
  apply reads_bind hvalue
  intro hlt
  apply reads_bind (reads_expect hclose)
  intro hlt
  exact reads_ok

theorem reads_statement_declaration {d : Declaration} (hstart : t.kind = .symbol .backslash)
    (hd : Reads (declaration endToken (t :: ts)) d ts₁) :
    Reads (statement endToken (t :: ts)) (.declaration d) ts₁ := by
  rw [statement, accept?_of_none (f := only (.keyword .if)) hstart rfl]
  simp only [accept?_of_none (f := only (.keyword .return)) hstart rfl, next, List.head?_cons,
    Option.getD_some, hstart, if_true]
  apply reads_bind hd
  intro hlt
  exact reads_ok

theorem reads_statement_expression {value : Expr} (hif : only (.keyword .if) t.kind = none)
    (hreturn : only (.keyword .return) t.kind = none) (hstart : t.kind ≠ .symbol .backslash)
    (hvalue : Reads (expression endToken (t :: ts)) value (t₁ :: ts₁))
    (hclose : t₁.kind = .symbol .semicolon) :
    Reads (statement endToken (t :: ts)) (.expression value) ts₁ := by
  rw [statement, accept?_of_none rfl hif]
  simp only [accept?_of_none rfl hreturn, next, List.head?_cons, Option.getD_some, hstart, if_false]
  apply reads_bind hvalue
  intro hlt
  apply reads_bind (reads_expect hclose)
  intro hlt
  exact reads_ok

theorem reads_conditional {condition : Expr} {consequent : Block}
    (hcondition : Reads (expression endToken ts) condition ts₁)
    (hconsequent : Reads (braced endToken ts₁) consequent ts₂)
    (hend : accept? (only (.keyword .else)) ts₂ = none) :
    Reads (conditional endToken ts) (.conditional condition consequent none) ts₂ := by
  rw [conditional]
  apply reads_bind hcondition
  intro hlt
  apply reads_bind hconsequent
  intro hlt
  simp only [hend]
  exact reads_ok

theorem reads_conditional_else {condition : Expr} {consequent alternative : Block}
    (hcondition : Reads (expression endToken ts) condition ts₁)
    (hconsequent : Reads (braced endToken ts₁) consequent (t :: t₁ :: ts₂))
    (helse : t.kind = .keyword .else) (hopen : t₁.kind = .symbol .leftBrace)
    (halternative : Reads (braced endToken (t₁ :: ts₂)) alternative ts₃) :
    Reads (conditional endToken ts) (.conditional condition consequent (some alternative)) ts₃ := by
  rw [conditional]
  apply reads_bind hcondition
  intro hlt
  apply reads_bind hconsequent
  intro hlt
  simp only [accept?_keyword helse, accept?_of_none (f := only (.keyword .if)) hopen rfl, next,
    List.head?_cons, Option.getD_some, hopen, if_true]
  apply reads_bind halternative
  intro hlt
  exact reads_ok

theorem reads_conditional_elseIf {condition : Expr} {consequent : Block} {s : Statement}
    (hcondition : Reads (expression endToken ts) condition ts₁)
    (hconsequent : Reads (braced endToken ts₁) consequent (t :: t₁ :: ts₂))
    (helse : t.kind = .keyword .else) (hif : t₁.kind = .keyword .if)
    (hs : Reads (conditional endToken ts₂) s ts₃) :
    Reads (conditional endToken ts) (.conditional condition consequent (some [s])) ts₃ := by
  rw [conditional]
  apply reads_bind hcondition
  intro hlt
  apply reads_bind hconsequent
  intro hlt
  simp only [accept?_keyword helse, accept?_keyword hif]
  apply reads_bind hs
  intro hlt
  exact reads_ok

theorem reads_declaration_class {word name : Identifier} {body : Block}
    (hstart : t.kind = .symbol .backslash)
    (hword : Reads (identifier endToken ts) word ts₁) (hclass : word.name = "class")
    (hname : Reads (className endToken ts₁) name ts₂)
    (hbody : Reads (braced endToken ts₂) body ts₃) :
    Reads (declaration endToken (t :: ts)) (.class name body) ts₃ := by
  rw [declaration]
  apply reads_bind (reads_expect hstart)
  intro hlt
  apply reads_bind hword
  intro hlt
  simp only [hclass, if_true]
  apply reads_bind hname
  intro hlt
  apply reads_bind hbody
  intro hlt
  exact reads_ok

def callable (owner : Option Identifier) (name : Identifier) (parameters : List Identifier)
    (body : Block) : Declaration :=
  match owner with
  | some owner => .method owner name parameters body
  | none => .function name parameters body

theorem reads_declaration_fun {word name : Identifier} {owner : Option Identifier}
    {xs : List Identifier} {body : Block} (hstart : t.kind = .symbol .backslash)
    (hword : Reads (identifier endToken ts) word ts₁) (hfun : word.name = "fun")
    (hname : Reads (callableName endToken ts₁) (owner, name) ts₂)
    (hparameters : Reads (parameters endToken ts₂) xs ts₃)
    (hbody : Reads (braced endToken ts₃) body ts₄) :
    Reads (declaration endToken (t :: ts)) (callable owner name xs body) ts₄ := by
  rw [declaration]
  apply reads_bind (reads_expect hstart)
  intro hlt
  apply reads_bind hword
  intro hlt
  simp only [hfun, if_true, String.reduceEq, if_false]
  apply reads_bind hname
  intro hlt
  apply reads_bind hparameters
  intro hlt
  apply reads_bind hbody
  intro hlt
  cases owner <;> exact reads_ok

end Parse

theorem Block.parse_of_reads {b : Block} {t : Token} {ts rest : List Token}
    (hb : Parse.Reads (Parse.block (Token.endAfter ts.getLast?) ts) b (t :: rest))
    (ht : t.kind = .endOfInput) : Block.parse ts = .ok b := by
  obtain ⟨hlt, hb⟩ := hb
  unfold Block.parse
  simp [hb, bind, Except.bind, Parse.next, ht]

end LiterateFun
