import LiterateFun.Document.Read
import LiterateFun.Document.Reference
import LiterateFun.Lowering.Generator
import LiterateFun.Prelude
import LiterateFun.Resolution.Session

/-!
This module contains the compilation of programs and of documents to scripts.
-/

namespace LiterateFun

inductive CompileError
  | parse (e : ParseError)
  | resolve (e : ResolveError)
deriving DecidableEq, Repr

namespace CompileError

def message : CompileError → String
  | .parse e => e.message
  | .resolve e => e.message

def span? : CompileError → Option Span
  | .parse e => some e.span
  | .resolve e => e.span?

end CompileError

def Generator.code (g : Generator) : String :=
  Prelude.script ++ Script.text g.script.1

structure CompiledProgram where
  /-- The resolved program. -/
  program : Block
  sites : Resolution.Sites
  code : String

def compile (source : String) : Except CompileError CompiledProgram := do
  let program ← (Block.ofSource source).mapError .parse
  let session := Resolution.Session.withBuiltins Prelude.builtins
  match session.resolve program with
  | (_, _, some e) => .error (.resolve e)
  | (program, session, none) =>
    let sites ← session.finish.2.mapError .resolve
    .ok { program, sites, code := (Generator.ofBlock program).code }

structure CompiledDocument where
  /-- The document with resolved declarations and references. -/
  document : Document
  sites : Resolution.Sites
  warnings : List Warning
  code : String

/--
Compile a document. Its declarations see each other in whatever order they come. A reference that is
not resolved is only a warning.
-/
def compileDocument (source : String) : Except CompileError CompiledDocument := do
  let document ← (Document.ofSource source).mapError .parse
  let session := Resolution.Session.withBuiltins Prelude.builtins
  match session.addAll document.declarations with
  | (_, some e) => .error (.resolve e)
  | (session, none) =>
    let (declarations, sites) := session.finish
    let sites ← sites.mapError .resolve
    let document := (document.withDeclarations declarations).resolveReferences
    .ok {
      document
      sites
      warnings := document.warnings
      code := (Generator.ofDeclarations declarations).code }

end LiterateFun
