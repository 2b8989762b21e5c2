import LiterateFun.Program.Print

/-!
This module contains literate documents: prose with declarations in it and with references to the
names that occur in them.
-/

namespace LiterateFun

inductive Direction
  | up
  | down
deriving DecidableEq, Repr

namespace Direction

def marker : Direction → Char
  | .up => '@'
  | .down => '!'

def ofMarker? (c : Char) : Option Direction :=
  if c = '@' then some .up
  else if c = '!' then some .down
  else none

def text : Direction → String
  | .up => "up"
  | .down => "down"

end Direction

inductive Part
  | text (s : String)
  /-- A declaration and the span of its text. -/
  | declaration (d : Declaration) (span : Span)
  /-- A reference, whose span includes the marker before it. -/
  | reference (direction : Direction) (target : Identifier)
deriving Repr

structure Document where
  parts : List Part

namespace Part

def declaration? : Part → Option Declaration
  | .declaration d _ => some d
  | _ => none

/-- The text of a part. A resolved reference shows its binding. -/
def print : Part → String
  | .text s => s
  | .declaration d _ => d.print 0
  | .reference direction target =>
    String.singleton direction.marker ++
      match target.id with
      | some id => "<" ++ target.name ++ ":" ++ Text.decimal id ++ ">"
      | none => target.name

end Part

namespace Document

def declarations (doc : Document) : List Declaration :=
  doc.parts.filterMap Part.declaration?

def withDeclarations (doc : Document) (ds : List Declaration) : Document where
  parts := go doc.parts ds
where
  go : List Part → List Declaration → List Part
    | .declaration _ span :: parts, d :: ds => .declaration d span :: go parts ds
    | part :: parts, ds => part :: go parts ds
    | [], _ => []

def print (doc : Document) : String :=
  String.join (doc.parts.map Part.print)

end Document

end LiterateFun
