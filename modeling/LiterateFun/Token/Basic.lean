import LiterateFun.Number.Basic
import LiterateFun.Position

/-!
This module contains the tokens of the language.
-/

namespace LiterateFun

/-- Operators and punctuation. Some of them are reserved: no grammar rule accepts them yet. -/
inductive Symbol
  | leftBrace
  | rightBrace
  | leftParen
  | rightParen
  | leftBracket
  | rightBracket
  | backslash
  | semicolon
  | comma
  | equal
  | equalEqual
  | colonEqual
  | colonColon
  | plus
  | plusEqual
  | minus
  | minusEqual
  | star
  | starEqual
  | slash
  | slashEqual
deriving DecidableEq, Repr

namespace Symbol

def text : Symbol → List Char
  | .leftBrace => ['{']
  | .rightBrace => ['}']
  | .leftParen => ['(']
  | .rightParen => [')']
  | .leftBracket => ['[']
  | .rightBracket => [']']
  | .backslash => ['\\']
  | .semicolon => [';']
  | .comma => [',']
  | .equal => ['=']
  | .equalEqual => ['=', '=']
  | .colonEqual => [':', '=']
  | .colonColon => [':', ':']
  | .plus => ['+']
  | .plusEqual => ['+', '=']
  | .minus => ['-']
  | .minusEqual => ['-', '=']
  | .star => ['*']
  | .starEqual => ['*', '=']
  | .slash => ['/']
  | .slashEqual => ['/', '=']

def label : Symbol → String
  | .leftBrace => "LeftBrace"
  | .rightBrace => "RightBrace"
  | .leftParen => "LeftParen"
  | .rightParen => "RightParen"
  | .leftBracket => "LeftBracket"
  | .rightBracket => "RightBracket"
  | .backslash => "Backslash"
  | .semicolon => "Semicolon"
  | .comma => "Comma"
  | .equal => "Equal"
  | .equalEqual => "EqualEqual"
  | .colonEqual => "ColonEqual"
  | .colonColon => "ColonColon"
  | .plus => "Plus"
  | .plusEqual => "PlusEqual"
  | .minus => "Minus"
  | .minusEqual => "MinusEqual"
  | .star => "Star"
  | .starEqual => "StarEqual"
  | .slash => "Slash"
  | .slashEqual => "SlashEqual"

/-- All symbols, those that extend another one before it. -/
def all : List Symbol :=
  [.equalEqual, .colonEqual, .colonColon, .plusEqual, .minusEqual, .starEqual, .slashEqual,
   .leftBrace, .rightBrace, .leftParen, .rightParen, .leftBracket, .rightBracket, .backslash,
   .semicolon, .comma, .equal, .plus, .minus, .star, .slash]

def atStart? (text : List Char) : Option Symbol :=
  all.find? fun symbol => symbol.text.isPrefixOf text

theorem text_ne_nil (s : Symbol) : s.text ≠ [] := by
  cases s <;> simp [text]

end Symbol

inductive Keyword
  | «if»
  | «else»
  | «return»
deriving DecidableEq, Repr

namespace Keyword

def text : Keyword → String
  | .if => "if"
  | .else => "else"
  | .return => "return"

def label : Keyword → String
  | .if => "If"
  | .else => "Else"
  | .return => "Return"

def ofText? (word : String) : Option Keyword :=
  [.if, .else, .return].find? fun keyword => keyword.text = word

end Keyword

inductive LexicalError
  | unexpectedCharacter (c : Char)
  | unexpectedEscape (c : Char)
  | unterminatedString
  | invalidNumber
  | numberTooLarge
deriving DecidableEq, Repr

def LexicalError.message : LexicalError → String
  | .unexpectedCharacter c => "Unexpected character '" ++ String.singleton c ++ "'"
  | .unexpectedEscape c => "Unexpected escaped character '" ++ String.singleton c ++ "'"
  | .unterminatedString => "Unterminated string"
  | .invalidNumber => "Invalid number"
  | .numberTooLarge => "Number literal is too large"

inductive TokenClass
  | symbol (s : Symbol)
  | keyword (k : Keyword)
  | identifier
  | string
  | number
  | invalid
  | endOfInput
deriving DecidableEq, Repr

def TokenClass.label : TokenClass → String
  | .symbol s => s.label
  | .keyword k => k.label
  | .identifier => "Identifier"
  | .string => "String"
  | .number => "Number"
  | .invalid => "SyntaxError"
  | .endOfInput => "Eof"

inductive TokenKind
  | symbol (s : Symbol)
  | keyword (k : Keyword)
  | identifier (name : String)
  | string (value : String)
  | number (value : Number)
  /-- A part of the source that is no token. -/
  | invalid (cause : LexicalError)
  | endOfInput
deriving DecidableEq, Repr

def TokenKind.class : TokenKind → TokenClass
  | .symbol s => .symbol s
  | .keyword k => .keyword k
  | .identifier _ => .identifier
  | .string _ => .string
  | .number _ => .number
  | .invalid _ => .invalid
  | .endOfInput => .endOfInput

structure Token where
  kind : TokenKind
  /-- The text of the token in the source. -/
  lexeme : String
  position : Position
deriving DecidableEq, Repr

namespace Token

def span (t : Token) : Span where
  start := t.position.offset
  stop := t.position.offset + Text.byteSize t.lexeme.toList

/-- The token that stands for the end of the input after the last token, if there is one. -/
def endAfter : Option Token → Token
  | none => { kind := .endOfInput, lexeme := "", position := .first }
  | some last =>
    { kind := .endOfInput, lexeme := "",
      position :=
        { last.position with
          offset := last.span.stop, column := last.position.column + last.lexeme.toList.length } }

end Token

end LiterateFun
