import LiterateFun.Position

/-!
This module contains the errors of name resolution.
-/

namespace LiterateFun

inductive ResolveError
  | duplicateDefinition (name : String) (span : Span)
  | undefinedIdentifier (name : String) (span : Span)
  | usedBeforeDeclaration (name : String) (span : Span)
  | invalidAssignmentTarget
deriving DecidableEq, Repr

namespace ResolveError

def message : ResolveError → String
  | .duplicateDefinition name _ => "`" ++ name ++ "` is already defined in this scope"
  | .undefinedIdentifier name _ => "`" ++ name ++ "` is not defined"
  | .usedBeforeDeclaration name _ => "`" ++ name ++ "` is used before it is declared"
  | .invalidAssignmentTarget => "only identifiers can be assigned to"

def span? : ResolveError → Option Span
  | .duplicateDefinition _ span => some span
  | .undefinedIdentifier _ span => some span
  | .usedBeforeDeclaration _ span => some span
  | .invalidAssignmentTarget => none

end ResolveError

end LiterateFun
