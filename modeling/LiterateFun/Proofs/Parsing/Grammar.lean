import LiterateFun.Program.Basic
import LiterateFun.Token.Basic

/-!
This module contains the grammar of programs: which lists of tokens are an expression, a statement
or a block, and the tree that they denote. Nothing here says how the tree is found.
-/

namespace LiterateFun

/-- The token is the identifier, which is not resolved. -/
def Token.Denotes (t : Token) (x : Identifier) : Prop :=
  t.kind = .identifier x.name ∧ x = { name := x.name, span := t.span }

namespace Grammar

mutual

/--
`binary ( ( '=' | ':=' ) expression )?`, where the left side of an assignment is an identifier.
-/
inductive IsExpression : List Token → Expr → Prop
  | binary {ts : List Token} {e : Expr} (h : IsBinary ts e) : IsExpression ts e
  | assign {ts₁ ts₂ : List Token} {t : Token} {x : Identifier} {value : Expr}
      (hx : IsBinary ts₁ (.identifier x)) (ht : t.kind = .symbol .equal)
      (hvalue : IsExpression ts₂ value) :
      IsExpression (ts₁ ++ t :: ts₂) (.assign (.identifier x) value)
  | declare {ts₁ ts₂ : List Token} {t : Token} {x : Identifier} {value : Expr}
      (hx : IsBinary ts₁ (.identifier x)) (ht : t.kind = .symbol .colonEqual)
      (hvalue : IsExpression ts₂ value) :
      IsExpression (ts₁ ++ t :: ts₂) (.declare x value)

/-- `postfix ( ( '+' | '-' | '*' | '/' ) postfix )*`, where operations group to the left. -/
inductive IsBinary : List Token → Expr → Prop
  | postfixed {ts : List Token} {e : Expr} (h : IsPostfixed ts e) : IsBinary ts e
  | operation {ts₁ ts₂ : List Token} {t : Token} {s : Symbol} {op : Operator} {left right : Expr}
      (hleft : IsBinary ts₁ left) (ht : t.kind = .symbol s) (hop : s.text = op.text.toList)
      (hright : IsPostfixed ts₂ right) :
      IsBinary (ts₁ ++ t :: ts₂) (.binary op left right)

/-- `primary ( '(' arguments? ')' )*` -/
inductive IsPostfixed : List Token → Expr → Prop
  | primary {ts : List Token} {e : Expr} (h : IsPrimary ts e) : IsPostfixed ts e
  | call {ts₁ ts₂ : List Token} {t₁ t₂ : Token} {callee : Expr} {args : List Expr}
      (hcallee : IsPostfixed ts₁ callee) (hopen : t₁.kind = .symbol .leftParen)
      (hargs : IsArguments ts₂ args) (hclose : t₂.kind = .symbol .rightParen) :
      IsPostfixed (ts₁ ++ t₁ :: (ts₂ ++ [t₂])) (.call callee args)

/-- `( expression ( ',' expression )* )?` -/
inductive IsArguments : List Token → List Expr → Prop
  | none : IsArguments [] []
  | some {ts : List Token} {es : List Expr} (h : IsSomeArguments ts es) : IsArguments ts es

/-- `expression ( ',' expression )*` -/
inductive IsSomeArguments : List Token → List Expr → Prop
  | last {ts : List Token} {e : Expr} (h : IsExpression ts e) : IsSomeArguments ts [e]
  | cons {ts₁ ts₂ : List Token} {t : Token} {e : Expr} {es : List Expr} (he : IsExpression ts₁ e)
      (ht : t.kind = .symbol .comma) (hes : IsSomeArguments ts₂ es) :
      IsSomeArguments (ts₁ ++ t :: ts₂) (e :: es)

/-- `STRING | NUMBER | IDENT | '(' expression ')'`, where parentheses leave nothing in the tree. -/
inductive IsPrimary : List Token → Expr → Prop
  | string {t : Token} {value : String} (h : t.kind = .string value) : IsPrimary [t] (.string value)
  | number {t : Token} {value : Number} (h : t.kind = .number value) : IsPrimary [t] (.number value)
  | identifier {t : Token} {x : Identifier} (h : t.Denotes x) : IsPrimary [t] (.identifier x)
  | parens {ts : List Token} {t₁ t₂ : Token} {e : Expr} (hopen : t₁.kind = .symbol .leftParen)
      (h : IsExpression ts e) (hclose : t₂.kind = .symbol .rightParen) :
      IsPrimary (t₁ :: (ts ++ [t₂])) e

end

/-- `IDENT ( ',' IDENT )*` -/
inductive IsSomeParameters : List Token → List Identifier → Prop
  | last {t : Token} {x : Identifier} (h : t.Denotes x) : IsSomeParameters [t] [x]
  | cons {ts : List Token} {t t₁ : Token} {x : Identifier} {xs : List Identifier} (h : t.Denotes x)
      (ht : t₁.kind = .symbol .comma) (hxs : IsSomeParameters ts xs) :
      IsSomeParameters (t :: t₁ :: ts) (x :: xs)

/-- `'{' params? '}'` -/
inductive IsParameters : List Token → List Identifier → Prop
  | none {t₁ t₂ : Token} (hopen : t₁.kind = .symbol .leftBrace)
      (hclose : t₂.kind = .symbol .rightBrace) : IsParameters [t₁, t₂] []
  | some {ts : List Token} {t₁ t₂ : Token} {xs : List Identifier}
      (hopen : t₁.kind = .symbol .leftBrace) (h : IsSomeParameters ts xs)
      (hclose : t₂.kind = .symbol .rightBrace) : IsParameters (t₁ :: (ts ++ [t₂])) xs

/-- `'{' IDENT '}'` -/
inductive IsName : List Token → Identifier → Prop
  | mk {t₁ t t₂ : Token} {x : Identifier} (hopen : t₁.kind = .symbol .leftBrace) (h : t.Denotes x)
      (hclose : t₂.kind = .symbol .rightBrace) : IsName [t₁, t, t₂] x

/-- `'{' IDENT '::' IDENT '}'` -/
inductive IsMethodName : List Token → Identifier → Identifier → Prop
  | mk {t₁ t t₂ t' t₃ : Token} {owner name : Identifier} (hopen : t₁.kind = .symbol .leftBrace)
      (howner : t.Denotes owner) (hcolon : t₂.kind = .symbol .colonColon) (hname : t'.Denotes name)
      (hclose : t₃.kind = .symbol .rightBrace) : IsMethodName [t₁, t, t₂, t', t₃] owner name

mutual

/-- `statement*` -/
inductive IsBlock : List Token → Block → Prop
  | nil : IsBlock [] []
  | cons {ts₁ ts₂ : List Token} {s : Statement} {b : Block} (hs : IsStatement ts₁ s)
      (hb : IsBlock ts₂ b) : IsBlock (ts₁ ++ ts₂) (s :: b)

/-- `'{' block '}'` -/
inductive IsBraced : List Token → Block → Prop
  | mk {ts : List Token} {t₁ t₂ : Token} {b : Block} (hopen : t₁.kind = .symbol .leftBrace)
      (hb : IsBlock ts b) (hclose : t₂.kind = .symbol .rightBrace) :
      IsBraced (t₁ :: (ts ++ [t₂])) b

/-- `'if' if_rest | '\' declaration | 'return' expression ';' | expression ';'` -/
inductive IsStatement : List Token → Statement → Prop
  | conditional {ts : List Token} {t : Token} {s : Statement} (ht : t.kind = .keyword .if)
      (h : IsConditional ts s) : IsStatement (t :: ts) s
  | declaration {ts : List Token} {t : Token} {d : Declaration} (ht : t.kind = .symbol .backslash)
      (h : IsDeclaration ts d) : IsStatement (t :: ts) (.declaration d)
  | return {ts : List Token} {t₁ t₂ : Token} {value : Expr} (ht : t₁.kind = .keyword .return)
      (h : IsExpression ts value) (hclose : t₂.kind = .symbol .semicolon) :
      IsStatement (t₁ :: (ts ++ [t₂])) (.return value)
  | expression {ts : List Token} {t : Token} {value : Expr} (h : IsExpression ts value)
      (hclose : t.kind = .symbol .semicolon) : IsStatement (ts ++ [t]) (.expression value)

/--
`expression '{' block '}' ( 'else' ( '{' block '}' | 'if' if_rest ) )?`, where a conditional after
`else` is the only statement of the alternative.
-/
inductive IsConditional : List Token → Statement → Prop
  | plain {ts₁ ts₂ : List Token} {condition : Expr} {consequent : Block}
      (hcondition : IsExpression ts₁ condition) (hconsequent : IsBraced ts₂ consequent) :
      IsConditional (ts₁ ++ ts₂) (.conditional condition consequent none)
  | otherwise {ts₁ ts₂ ts₃ : List Token} {t : Token} {condition : Expr}
      {consequent alternative : Block} (hcondition : IsExpression ts₁ condition)
      (hconsequent : IsBraced ts₂ consequent) (ht : t.kind = .keyword .else)
      (halternative : IsBraced ts₃ alternative) :
      IsConditional (ts₁ ++ (ts₂ ++ t :: ts₃))
        (.conditional condition consequent (some alternative))
  | elseIf {ts₁ ts₂ ts₃ : List Token} {t₁ t₂ : Token} {condition : Expr} {consequent : Block}
      {s : Statement} (hcondition : IsExpression ts₁ condition)
      (hconsequent : IsBraced ts₂ consequent) (helse : t₁.kind = .keyword .else)
      (hif : t₂.kind = .keyword .if) (h : IsConditional ts₃ s) :
      IsConditional (ts₁ ++ (ts₂ ++ t₁ :: t₂ :: ts₃)) (.conditional condition consequent (some [s]))

/--
`'class' '{' IDENT '}' '{' block '}' |
'fun' '{' IDENT ( '::' IDENT )? '}' '{' params? '}' '{' block '}'`
-/
inductive IsDeclaration : List Token → Declaration → Prop
  | class {ts₁ ts₂ : List Token} {t : Token} {name : Identifier} {body : Block}
      (ht : t.kind = .identifier "class") (hname : IsName ts₁ name) (hbody : IsBraced ts₂ body) :
      IsDeclaration (t :: (ts₁ ++ ts₂)) (.class name body)
  | function {ts₁ ts₂ ts₃ : List Token} {t : Token} {name : Identifier} {xs : List Identifier}
      {body : Block} (ht : t.kind = .identifier "fun") (hname : IsName ts₁ name)
      (hxs : IsParameters ts₂ xs) (hbody : IsBraced ts₃ body) :
      IsDeclaration (t :: (ts₁ ++ (ts₂ ++ ts₃))) (.function name xs body)
  | method {ts₁ ts₂ ts₃ : List Token} {t : Token} {owner name : Identifier} {xs : List Identifier}
      {body : Block} (ht : t.kind = .identifier "fun") (hname : IsMethodName ts₁ owner name)
      (hxs : IsParameters ts₂ xs) (hbody : IsBraced ts₃ body) :
      IsDeclaration (t :: (ts₁ ++ (ts₂ ++ ts₃))) (.method owner name xs body)

end

end Grammar

end LiterateFun
