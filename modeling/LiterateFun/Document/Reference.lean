import LiterateFun.Document.Basic
import LiterateFun.Program.Occurrences

/-!
This module contains the resolution of the references of a document. A reference finds the nearest
declaration that mentions its name, first in its own direction and then in the other one.
-/

namespace LiterateFun

/-- A reference to a name that no declaration of the document mentions. -/
structure Warning where
  direction : Direction
  target : Identifier
deriving DecidableEq, Repr

def Warning.message (w : Warning) : String :=
  "no declaration mentions `" ++ w.target.name ++ "` (" ++ w.direction.text ++ " reference)"

namespace Document

def searchUp (above : List Part) (name : String) : Option Nat :=
  (above.filterMap Part.declaration?).findSome? (·.last? name)

def searchDown (below : List Part) (name : String) : Option Nat :=
  (below.filterMap Part.declaration?).findSome? (·.first? name)

/-- What a reference finds, where the parts above it stand with the nearest one first. -/
def search (direction : Direction) (above below : List Part) (name : String) : Option Nat :=
  match direction with
  | .up => searchUp above name <|> searchDown below name
  | .down => searchDown below name <|> searchUp above name

def resolvePart (above : List Part) (part : Part) (below : List Part) : Part :=
  match part with
  | .reference direction target =>
    .reference direction
      { target with id := target.id <|> search direction above below target.name }
  | part => part

def resolveReferences (doc : Document) : Document where
  parts := go [] doc.parts
where
  go (above : List Part) : List Part → List Part
    | [] => []
    | part :: below => resolvePart above part below :: go (part :: above) below

def warnings (doc : Document) : List Warning :=
  doc.parts.filterMap fun
    | .reference direction target =>
      if target.id.isNone then some { direction, target } else none
    | _ => none

end Document

end LiterateFun
