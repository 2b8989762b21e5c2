import LiterateFun.Lowering.Basic
import LiterateFun.Script.Render

/-!
This module contains generators, which collect the parts of a program and write them out as a
script. A generator can be used on after it has written a script; it then writes all of its parts
again and goes on with its temporaries.
-/

namespace LiterateFun

structure Generator where
  declarations : List Declaration := []
  statements : List Statement := []
  state : Lowering.State := {}
  /-- The bindings that a `:=` introduces, as they were when the first script was written. -/
  ids : Option (List Nat) := none

namespace Generator

def isClassNamed (name : String) : Declaration → Bool
  | .class name' _ => name'.name = name
  | _ => false

/-- Add a declaration. A class takes the place of an earlier one of its name. -/
def addDeclaration (g : Generator) (d : Declaration) : Generator :=
  match d with
  | .class name _ =>
    if g.declarations.any (isClassNamed name.name) then
      { g with
        declarations := g.declarations.map fun d' => if isClassNamed name.name d' then d else d' }
    else
      { g with declarations := g.declarations ++ [d] }
  | d => { g with declarations := g.declarations ++ [d] }

def add (g : Generator) (s : Statement) : Generator :=
  match s with
  | .declaration d => g.addDeclaration d
  | s => { g with statements := g.statements ++ [s] }

def ofBlock (b : Block) : Generator :=
  b.foldl add {}

def ofDeclarations (ds : List Declaration) : Generator :=
  ds.foldl addDeclaration {}

def declaredIds (g : Generator) : List Nat :=
  g.declarations.flatMap Declaration.declaredIds ++ g.statements.flatMap Statement.declaredIds

def script (g : Generator) : List Script.Statement × Generator :=
  let ids := g.ids.getD g.declaredIds
  let pieces := g.declarations.map (Declaration.lower ids)
  let (code, state) := (lowerStatements ids g.statements).run g.state
  (Lowering.Piece.arrange pieces ++ code, { g with state, ids := some ids })

def generate? (g : Generator) : Option (String × Generator) :=
  let (script, g) := g.script
  (Script.text? script).map fun text => (text, g)

end Generator

end LiterateFun
