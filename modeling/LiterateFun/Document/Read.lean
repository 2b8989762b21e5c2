import LiterateFun.Document.Basic
import LiterateFun.Program.Parse

/-!
This module contains the reader of documents. A backslash and `fun` or `class` with a brace start a
declaration, a marker and a name are a reference, and all else is text. Nothing in braces is
interpreted, and neither is a pair of backslashes.
-/

namespace LiterateFun

namespace Document

def startsDeclaration (text : List Char) : Bool :=
  ['f', 'u', 'n', '{'].isPrefixOf text || ['c', 'l', 'a', 's', 's', '{'].isPrefixOf text

/--
Divide the text after an opening brace behind the closing brace that matches it, where `depth`
further braces are open. A group that is not closed reaches to the end.
-/
def splitGroup (depth : Nat) : List Char → List Char × List Char
  | [] => ([], [])
  | c :: text =>
    if c = '}' then
      match depth with
      | 0 => ([c], text)
      | depth + 1 =>
        let (group, rest) := splitGroup depth text
        (c :: group, rest)
    else
      let (group, rest) := splitGroup (if c = '{' then depth + 1 else depth) text
      (c :: group, rest)

theorem splitGroup_append (depth : Nat) (text : List Char) :
    (splitGroup depth text).1 ++ (splitGroup depth text).2 = text := by
  fun_induction splitGroup depth text <;> simp_all

def skipTo (offset : Nat) (p : Position) : List Char → Position × List Char
  | [] => (p, [])
  | c :: text => if p.offset < offset then skipTo offset (p.next c) text else (p, c :: text)

theorem skipTo_length_le (offset : Nat) (p : Position) (text : List Char) :
    (skipTo offset p text).2.length ≤ text.length := by
  fun_induction skipTo offset p text <;> simp_all
  omega

/-- What a document has from some place on: text up to the first other part, and the parts. -/
structure Remainder where
  text : List Char := []
  parts : List Part := []

namespace Remainder

def toParts (r : Remainder) : List Part :=
  match r.text with
  | [] => r.parts
  | text => .text (String.ofList text) :: r.parts

def afterText (r : Remainder) (text : List Char) : Remainder :=
  { r with text := text ++ r.text }

def afterPart (r : Remainder) (part : Part) : Remainder where
  parts := part :: r.toParts

end Remainder

def read (p : Position) (text : List Char) : Except ParseError Remainder :=
  match text with
  | [] => .ok {}
  | '\\' :: '\\' :: rest => do
    let r ← read (p.after ['\\', '\\']) rest
    .ok (r.afterText ['\\', '\\'])
  | '\\' :: rest =>
    if startsDeclaration rest then do
      let (d, span) ← Declaration.parse (Token.scan p ('\\' :: rest))
      have := skipTo_length_le span.stop (p.next '\\') rest
      let r ← read (skipTo span.stop (p.next '\\') rest).1 (skipTo span.stop (p.next '\\') rest).2
      .ok (r.afterPart (.declaration d span))
    else do
      let r ← read (p.next '\\') rest
      .ok (r.afterText ['\\'])
  | '{' :: rest => do
    have := congrArg List.length (splitGroup_append 0 rest)
    let r ← read (p.after ('{' :: (splitGroup 0 rest).1)) (splitGroup 0 rest).2
    .ok (r.afterText ('{' :: (splitGroup 0 rest).1))
  | c :: rest =>
    match Direction.ofMarker? c, rest.takeWhile Token.isWordRest with
    | some direction, d :: name => do
      have := (List.dropWhile_sublist Token.isWordRest (l := rest)).length_le
      let stop := p.after (c :: d :: name)
      let r ← read stop (rest.dropWhile Token.isWordRest)
      let span := { start := p.offset, stop := stop.offset }
      .ok (r.afterPart (.reference direction { name := String.ofList (d :: name), span }))
    | _, _ => do
      let r ← read (p.next c) rest
      .ok (r.afterText [c])
termination_by text.length
decreasing_by all_goals simp_all; try omega

def ofSource (source : String) : Except ParseError Document := do
  let r ← read .first source.toList
  .ok { parts := r.toParts }

end Document

end LiterateFun
