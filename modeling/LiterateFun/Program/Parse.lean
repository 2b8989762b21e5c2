import LiterateFun.Program.Basic
import LiterateFun.Token.Scan

/-!
This module contains the parser. It reads a list of tokens from left to right and never takes back a
token. Every rule of the grammar is a function to the rest of the tokens, which is shorter.
-/

namespace LiterateFun

namespace ParseError

inductive Cause
  /-- The token is of none of the classes that may come next. -/
  | unexpected (expected : List TokenClass)
  /-- The word after a backslash does not start a declaration. -/
  | notDeclaration (word : String)
  /-- The left side of `:=` is not an identifier. -/
  | notDeclarable
  /-- The left side of `=` is not an identifier. -/
  | notAssignable
deriving DecidableEq, Repr

end ParseError

structure ParseError where
  cause : ParseError.Cause
  token : Token
deriving DecidableEq, Repr

namespace ParseError

def message (e : ParseError) : String :=
  match e.cause with
  | .unexpected expected =>
    match e.token.kind with
    | .invalid cause => cause.message
    | kind =>
      "expected " ++ " or ".intercalate (expected.map TokenClass.label) ++ ", found "
        ++ kind.class.label
  | .notDeclaration word => "expected `class` or `fun`, found `" ++ word ++ "`"
  | .notDeclarable => "`:=` must follow an identifier"
  | .notAssignable => "invalid assignment target"

def span (e : ParseError) : Span :=
  e.token.span

end ParseError

inductive Assignment
  | existing
  | new
deriving DecidableEq, Repr

namespace Assignment

def ofKind? : TokenKind → Option Assignment
  | .symbol .equal => some .existing
  | .symbol .colonEqual => some .new
  | _ => none

def expr (a : Assignment) (x : Identifier) (value : Expr) : Expr :=
  match a with
  | .existing => .assign (.identifier x) value
  | .new => .declare x value

def cause : Assignment → ParseError.Cause
  | .existing => .notAssignable
  | .new => .notDeclarable

end Assignment

def Operator.ofKind? : TokenKind → Option Operator
  | .symbol .plus => some .add
  | .symbol .minus => some .subtract
  | .symbol .star => some .multiply
  | .symbol .slash => some .divide
  | _ => none

namespace Parse

/-- A value that was read from the start of a list of tokens, and the fewer tokens after it. -/
structure Parsed (α : Type) (bound : Nat) where
  value : α
  rest : List Token
  rest_lt : rest.length < bound

abbrev Result (α : Type) (ts : List Token) :=
  Except ParseError (Parsed α ts.length)

abbrev WeakResult (α : Type) (ts : List Token) :=
  Except ParseError (Parsed α (ts.length + 1))

def accept? (f : TokenKind → Option α) (ts : List Token) : Option (Parsed α ts.length) :=
  match ts with
  | [] => none
  | t :: rest => (f t.kind).map fun value => ⟨value, rest, by simp⟩

def only (c : TokenClass) (kind : TokenKind) : Option Unit :=
  if kind.class = c then some () else none

def isAtBlockEnd (ts : List Token) : Bool :=
  match ts with
  | [] => true
  | t :: _ => t.kind = .symbol .rightBrace ∨ t.kind = .endOfInput

variable (endToken : Token)

/-- The next token, which is `endToken` when there are no more. -/
def next (ts : List Token) : Token :=
  ts.head?.getD endToken

def unexpected (expected : List TokenClass) (ts : List Token) : ParseError where
  cause := .unexpected expected
  token := next endToken ts

def expect (c : TokenClass) (ts : List Token) : Result Unit ts :=
  match accept? (only c) ts with
  | some parsed => .ok parsed
  | none => .error (unexpected endToken [c] ts)

def identifier (ts : List Token) : Result Identifier ts :=
  match ts with
  | { kind := .identifier name, lexeme, position } :: rest =>
    let t : Token := { kind := .identifier name, lexeme, position }
    .ok ⟨{ name, span := t.span }, rest, by simp⟩
  | ts => .error (unexpected endToken [.identifier] ts)

mutual

def expression (ts : List Token) : Result Expr ts := do
  let ⟨left, ts₁, h₁⟩ ← binary ts
  match accept? Assignment.ofKind? ts₁ with
  | none => .ok ⟨left, ts₁, h₁⟩
  | some ⟨assignment, ts₂, h₂⟩ =>
    match left with
    | .identifier x =>
      let ⟨value, ts₃, h₃⟩ ← expression ts₂
      .ok ⟨assignment.expr x value, ts₃, by omega⟩
    | _ => .error { cause := assignment.cause, token := next endToken ts₁ }
termination_by (ts.length, 3)

def binary (ts : List Token) : Result Expr ts := do
  let ⟨left, ts₁, h₁⟩ ← postfixed ts
  let ⟨value, ts₂, h₂⟩ ← binaryRest left ts₁
  .ok ⟨value, ts₂, by omega⟩
termination_by (ts.length, 2)

def binaryRest (left : Expr) (ts : List Token) : WeakResult Expr ts :=
  match accept? Operator.ofKind? ts with
  | none => .ok ⟨left, ts, by omega⟩
  | some ⟨op, ts₁, h₁⟩ => do
    let ⟨right, ts₂, h₂⟩ ← postfixed ts₁
    let ⟨value, ts₃, h₃⟩ ← binaryRest (.binary op left right) ts₂
    .ok ⟨value, ts₃, by omega⟩
termination_by (ts.length, 0)

def postfixed (ts : List Token) : Result Expr ts := do
  let ⟨callee, ts₁, h₁⟩ ← primary ts
  let ⟨value, ts₂, h₂⟩ ← postfixedRest callee ts₁
  .ok ⟨value, ts₂, by omega⟩
termination_by (ts.length, 1)

def postfixedRest (callee : Expr) (ts : List Token) : WeakResult Expr ts :=
  match accept? (only (.symbol .leftParen)) ts with
  | none => .ok ⟨callee, ts, by omega⟩
  | some ⟨_, ts₁, h₁⟩ => do
    let ⟨args, ts₂, h₂⟩ ← arguments ts₁
    let ⟨value, ts₃, h₃⟩ ← postfixedRest (.call callee args) ts₂
    .ok ⟨value, ts₃, by omega⟩
termination_by (ts.length, 0)

def arguments (ts : List Token) : Result (List Expr) ts :=
  match accept? (only (.symbol .rightParen)) ts with
  | some ⟨_, ts₁, h₁⟩ => .ok ⟨[], ts₁, h₁⟩
  | none => someArguments ts
termination_by (ts.length, 5)

def someArguments (ts : List Token) : Result (List Expr) ts := do
  let ⟨first, ts₁, h₁⟩ ← expression ts
  match accept? (only (.symbol .comma)) ts₁ with
  | some ⟨_, ts₂, h₂⟩ =>
    let ⟨others, ts₃, h₃⟩ ← someArguments ts₂
    .ok ⟨first :: others, ts₃, by omega⟩
  | none =>
    let ⟨_, ts₂, h₂⟩ ← expect endToken (.symbol .rightParen) ts₁
    .ok ⟨[first], ts₂, by omega⟩
termination_by (ts.length, 4)

def primary (ts : List Token) : Result Expr ts :=
  match ts with
  | { kind := .string value, .. } :: ts₁ => .ok ⟨.string value, ts₁, by simp⟩
  | { kind := .number value, .. } :: ts₁ => .ok ⟨.number value, ts₁, by simp⟩
  | { kind := .identifier name, lexeme, position } :: ts₁ =>
    let t : Token := { kind := .identifier name, lexeme, position }
    .ok ⟨.identifier { name, span := t.span }, ts₁, by simp⟩
  | { kind := .symbol .leftParen, .. } :: ts₁ => do
    let ⟨value, ts₂, h₂⟩ ← expression ts₁
    let ⟨_, ts₃, h₃⟩ ← expect endToken (.symbol .rightParen) ts₂
    .ok ⟨value, ts₃, by simp; omega⟩
  | ts =>
    .error (unexpected endToken [.string, .number, .identifier, .symbol .leftParen] ts)
termination_by (ts.length, 0)

end

def someParameters (ts : List Token) : Result (List Identifier) ts := do
  let ⟨first, ts₁, h₁⟩ ← identifier endToken ts
  match accept? (only (.symbol .comma)) ts₁ with
  | some ⟨_, ts₂, h₂⟩ =>
    let ⟨others, ts₃, h₃⟩ ← someParameters ts₂
    .ok ⟨first :: others, ts₃, by omega⟩
  | none =>
    let ⟨_, ts₂, h₂⟩ ← expect endToken (.symbol .rightBrace) ts₁
    .ok ⟨[first], ts₂, by omega⟩
termination_by ts.length

def parameters (ts : List Token) : Result (List Identifier) ts := do
  let ⟨_, ts₁, h₁⟩ ← expect endToken (.symbol .leftBrace) ts
  match accept? (only (.symbol .rightBrace)) ts₁ with
  | some ⟨_, ts₂, h₂⟩ => .ok ⟨[], ts₂, by omega⟩
  | none =>
    let ⟨names, ts₂, h₂⟩ ← someParameters endToken ts₁
    .ok ⟨names, ts₂, by omega⟩

def callableName (ts : List Token) : Result (Option Identifier × Identifier) ts := do
  let ⟨_, ts₁, h₁⟩ ← expect endToken (.symbol .leftBrace) ts
  let ⟨first, ts₂, h₂⟩ ← identifier endToken ts₁
  match accept? (only (.symbol .colonColon)) ts₂ with
  | some ⟨_, ts₃, h₃⟩ =>
    let ⟨name, ts₄, h₄⟩ ← identifier endToken ts₃
    let ⟨_, ts₅, h₅⟩ ← expect endToken (.symbol .rightBrace) ts₄
    .ok ⟨(some first, name), ts₅, by omega⟩
  | none =>
    let ⟨_, ts₃, h₃⟩ ← expect endToken (.symbol .rightBrace) ts₂
    .ok ⟨(none, first), ts₃, by omega⟩

def className (ts : List Token) : Result Identifier ts := do
  let ⟨_, ts₁, h₁⟩ ← expect endToken (.symbol .leftBrace) ts
  let ⟨name, ts₂, h₂⟩ ← identifier endToken ts₁
  let ⟨_, ts₃, h₃⟩ ← expect endToken (.symbol .rightBrace) ts₂
  .ok ⟨name, ts₃, by omega⟩

mutual

def block (ts : List Token) : WeakResult Block ts :=
  if isAtBlockEnd ts then
    .ok ⟨[], ts, by omega⟩
  else do
    let ⟨first, ts₁, h₁⟩ ← statement ts
    let ⟨others, ts₂, h₂⟩ ← block ts₁
    .ok ⟨first :: others, ts₂, by omega⟩
termination_by (ts.length, 2)

def braced (ts : List Token) : Result Block ts := do
  let ⟨_, ts₁, h₁⟩ ← expect endToken (.symbol .leftBrace) ts
  let ⟨body, ts₂, h₂⟩ ← block ts₁
  let ⟨_, ts₃, h₃⟩ ← expect endToken (.symbol .rightBrace) ts₂
  .ok ⟨body, ts₃, by omega⟩
termination_by (ts.length, 0)

def statement (ts : List Token) : Result Statement ts :=
  match accept? (only (.keyword .if)) ts with
  | some ⟨_, ts₁, h₁⟩ => do
    let ⟨value, ts₂, h₂⟩ ← conditional ts₁
    .ok ⟨value, ts₂, by omega⟩
  | none =>
    match accept? (only (.keyword .return)) ts with
    | some ⟨_, ts₁, h₁⟩ => do
      let ⟨value, ts₂, h₂⟩ ← expression endToken ts₁
      let ⟨_, ts₃, h₃⟩ ← expect endToken (.symbol .semicolon) ts₂
      .ok ⟨.return value, ts₃, by omega⟩
    | none =>
      if (next endToken ts).kind = .symbol .backslash then do
        let ⟨d, ts₁, h₁⟩ ← declaration ts
        .ok ⟨.declaration d, ts₁, h₁⟩
      else do
        let ⟨value, ts₁, h₁⟩ ← expression endToken ts
        let ⟨_, ts₂, h₂⟩ ← expect endToken (.symbol .semicolon) ts₁
        .ok ⟨.expression value, ts₂, by omega⟩
termination_by (ts.length, 1)

def conditional (ts : List Token) : Result Statement ts := do
  let ⟨condition, ts₁, h₁⟩ ← expression endToken ts
  let ⟨consequent, ts₂, h₂⟩ ← braced ts₁
  match accept? (only (.keyword .else)) ts₂ with
  | none => .ok ⟨.conditional condition consequent none, ts₂, by omega⟩
  | some ⟨_, ts₃, h₃⟩ =>
    match accept? (only (.keyword .if)) ts₃ with
    | some ⟨_, ts₄, h₄⟩ =>
      let ⟨nested, ts₅, h₅⟩ ← conditional ts₄
      .ok ⟨.conditional condition consequent (some [nested]), ts₅, by omega⟩
    | none =>
      if (next endToken ts₃).kind = .symbol .leftBrace then
        let ⟨alternative, ts₄, h₄⟩ ← braced ts₃
        .ok ⟨.conditional condition consequent (some alternative), ts₄, by omega⟩
      else
        .error (unexpected endToken [.symbol .leftBrace, .keyword .if] ts₃)
termination_by (ts.length, 0)

def declaration (ts : List Token) : Result Declaration ts := do
  let ⟨_, ts₁, h₁⟩ ← expect endToken (.symbol .backslash) ts
  let ⟨word, ts₂, h₂⟩ ← identifier endToken ts₁
  if word.name = "class" then
    let ⟨name, ts₃, h₃⟩ ← className endToken ts₂
    let ⟨body, ts₄, h₄⟩ ← braced ts₃
    .ok ⟨.class name body, ts₄, by omega⟩
  else if word.name = "fun" then
    let ⟨(owner, name), ts₃, h₃⟩ ← callableName endToken ts₂
    let ⟨names, ts₄, h₄⟩ ← parameters endToken ts₃
    let ⟨body, ts₅, h₅⟩ ← braced ts₄
    match owner with
    | some owner => .ok ⟨.method owner name names body, ts₅, by omega⟩
    | none => .ok ⟨.function name names body, ts₅, by omega⟩
  else
    .error { cause := .notDeclaration word.name, token := next endToken ts₁ }
termination_by (ts.length, 0)

end

end Parse

/--
Parse a whole program. Where the tokens do not end with an end of the input, it comes right after
the last one.
-/
def Block.parse (ts : List Token) : Except ParseError Block := do
  let endToken := Token.endAfter ts.getLast?
  let ⟨program, rest, _⟩ ← Parse.block endToken ts
  if (Parse.next endToken rest).kind = .endOfInput then
    .ok program
  else
    .error (Parse.unexpected endToken [.endOfInput] rest)

/--
Parse the declaration at the start of the tokens, whatever comes after it. Its span reaches from its
first token to its last one.
-/
def Declaration.parse (ts : List Token) : Except ParseError (Declaration × Span) := do
  let endToken := Token.endAfter ts.getLast?
  let ⟨d, rest, _⟩ ← Parse.declaration endToken ts
  let taken := ts.take (ts.length - rest.length)
  let first := taken.head?.getD endToken
  let last := taken.getLast?.getD endToken
  .ok (d, { start := first.span.start, stop := last.span.stop })

def Block.ofSource (source : String) : Except ParseError Block :=
  Block.parse (Token.ofSource source)

def Declaration.ofSource? (source : String) (offset : Nat) :
    Option (Except ParseError (Declaration × Span)) :=
  (Token.scanFrom? source offset).map Declaration.parse

end LiterateFun
