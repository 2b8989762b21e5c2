import LiterateFun.Proofs.Lowering.Spans
import LiterateFun.Proofs.Scoping.Agreement
import LiterateFun.Proofs.Spacing.Scanning

/-!
This module contains the independence of compiled programs from the spacing of their sources. The
parser, the resolution and the generator look at places for nothing but spans, so that sources with
the same tokens have the same program, the same code and the same errors.
-/

namespace LiterateFun

open Resolution

def Renaming.unplaced : Renaming where
  id id := id
  span := Span.unplaced

theorem Renaming.unplaced_identifier : unplaced.identifier = Identifier.unplaced := by
  funext x
  simp [unplaced, identifier, Identifier.unplaced]

def CompileError.unplaced : CompileError → CompileError
  | .parse e => .parse e.unplaced
  | .resolve e => .resolve (Renaming.unplaced.error e)

def CompiledProgram.unplaced (p : CompiledProgram) : CompiledProgram where
  program := p.program.unplaced
  sites := Renaming.unplaced.sites p.sites
  code := p.code

def CompiledProgram.upToPlaces (r : Except CompileError CompiledProgram) :
    Except CompileError CompiledProgram :=
  (r.map unplaced).mapError CompileError.unplaced

namespace Resolution.Session

def unplacedTwins (s : Session) (b : Block) : Twins Renaming.unplaced where
  first := s.start
  second := s.start
  last := (b.resolve s.surroundings s.start).2.nextId
  carries _ hle _ := (Nat.add_sub_cancel' hle).symm

theorem resolve_unplaced {s : Session} (hsites : s.sites = {}) (b : Block) :
    (b.unplaced.resolve s.surroundings s.start).1 =
        Block.unplaced (b.resolve s.surroundings s.start).1 ∧
      outcome (b.unplaced.resolve s.surroundings s.start).2 =
        Renaming.unplaced.outcome (outcome (b.resolve s.surroundings s.start).2) := by
  have hview : Renaming.unplaced.SameView s.surroundings s.surroundings [] [] := by
    apply sameView
    intro name
    exact Option.map_id'.symm
  have hstart : (s.unplacedTwins b).Aligned Renaming.unplaced.SameScope s.start s.start :=
    Twins.aligned_start (Renaming.sameScope_nil _) rfl
  have hblock := (Twins.follows_block (fun _ _ => hview.within) b).aligned _ _ hstart
    (Nat.le_refl _)
  rw [Renaming.unplaced_identifier] at hblock
  obtain ⟨htree, hend⟩ := hblock
  refine ⟨htree, hend.outcome_eq ?_ ?_ ?_⟩ <;> simp [unplacedTwins, start, hsites]

theorem resolveThenFinish_unplaced {s : Session} (hpending : s.pending = []) (hsites : s.sites = {})
    (b : Block) :
    s.resolveThenFinish b.unplaced =
      ((s.resolveThenFinish b).map
        fun resolved => (Block.unplaced resolved.1, Renaming.unplaced.sites resolved.2)).mapError
          Renaming.unplaced.error := by
  obtain ⟨htree, houtcome⟩ := resolve_unplaced hsites b
  rw [resolveThenFinish_eq hpending, resolveThenFinish_eq hpending, htree, houtcome]
  cases outcome (b.resolve s.surroundings s.start).2 <;> rfl

end Resolution.Session

def Block.compile (b : Block) : Except CompileError CompiledProgram :=
  (((Session.withBuiltins Prelude.builtins).resolveThenFinish b).mapError .resolve).map
    fun resolved =>
      { program := resolved.1, sites := resolved.2, code := (Generator.ofBlock resolved.1).code }

theorem compile_eq (source : String) :
    compile source = ((Block.ofSource source).mapError .parse).bind Block.compile := by
  unfold compile
  cases Block.ofSource source with
  | error e => rfl
  | ok b =>
    simp only [Except.mapError, Except.bind, bind, Block.compile, Session.resolveThenFinish]
    cases (Session.withBuiltins Prelude.builtins).resolve b with
    | mk program rest =>
      obtain ⟨session, failure⟩ := rest
      cases failure with
      | some e => rfl
      | none => cases hfinish : session.finish.2 <;> simp only [hfinish] <;> rfl

theorem Block.compile_unplaced (b : Block) :
    b.unplaced.compile = CompiledProgram.upToPlaces b.compile := by
  have hbuiltins := Session.registered_withBuiltins Prelude.builtins
  rw [Block.compile, Session.resolveThenFinish_unplaced hbuiltins.pending hbuiltins.sites,
    Block.compile]
  cases (Session.withBuiltins Prelude.builtins).resolveThenFinish b with
  | error e => rfl
  | ok resolved =>
    simp only [Except.map, Except.mapError, CompiledProgram.upToPlaces, CompiledProgram.unplaced,
      Generator.code_unplaced]

theorem Block.ofSource_upToPlaces {source text : String}
    (h : (Token.ofSource text).map Token.unplaced = (Token.ofSource source).map Token.unplaced) :
    ((Block.ofSource text).map Block.unplaced).mapError ParseError.unplaced =
      ((Block.ofSource source).map Block.unplaced).mapError ParseError.unplaced := by
  rw [Block.ofSource, ← Block.parse_unplaced, h, Block.parse_unplaced, Block.ofSource]

theorem CompiledProgram.upToPlaces_compile (source : String) :
    upToPlaces (compile source) =
      ((((Block.ofSource source).map Block.unplaced).mapError ParseError.unplaced).mapError
        .parse).bind Block.compile := by
  rw [compile_eq]
  cases Block.ofSource source with
  | error e => rfl
  | ok b => exact b.compile_unplaced.symm

/--
Other blanks and comments between the tokens of a source change neither its tokens nor, up to
places, the compiled program or the error that it shows.
-/
theorem compile_of_spaced {source text : String}
    (hvalid : ∀ t ∈ Token.ofSource source, t.kind.class ≠ .invalid)
    (h : Token.Spaced (Token.lexemes (Token.ofSource source)) text.toList) :
    (Token.ofSource text).map Token.kind = (Token.ofSource source).map Token.kind ∧
      CompiledProgram.upToPlaces (compile text) = CompiledProgram.upToPlaces (compile source) := by
  have htokens : (Token.ofSource text).map Token.unplaced =
      (Token.ofSource source).map Token.unplaced :=
    Token.map_unplaced_scan_of_spaced _ _ hvalid h
  constructor
  · exact Token.map_kind_eq_of_map_unplaced_eq htokens
  · rw [CompiledProgram.upToPlaces_compile, CompiledProgram.upToPlaces_compile,
      Block.ofSource_upToPlaces htokens]

theorem compile_spaced_division :
    ((∀ t ∈ Token.ofSource "print(print/print);", t.kind.class ≠ .invalid) ∧
      Token.Spaced (Token.lexemes (Token.ofSource "print(print/print);"))
        "// a\nprint ( print / // b\nprint ) ;\n".toList) ∧
    CompiledProgram.upToPlaces (compile "// a\nprint ( print / // b\nprint ) ;\n") =
      CompiledProgram.upToPlaces (compile "print(print/print);") := by
  have hvalid : ∀ t ∈ Token.ofSource "print(print/print);", t.kind.class ≠ .invalid := by
    decide +kernel
  have hlexemes : Token.lexemes (Token.ofSource "print(print/print);") =
      ["print".toList, ['('], "print".toList, ['/'], "print".toList, [')'], [';']] := by
    decide +kernel
  have htext : "// a\nprint ( print / // b\nprint ) ;\n".toList =
      ['/', '/', ' ', 'a', '\n'] ++ ("print".toList ++ ([' '] ++ (['('] ++ ([' '] ++
        ("print".toList ++ ([' '] ++ (['/'] ++ ([' ', '/', '/', ' ', 'b', '\n'] ++
          ("print".toList ++ ([' '] ++ ([')'] ++ ([' '] ++ ([';'] ++ ['\n']))))))))))))) := by
    decide +kernel
  have hcomment (c : Char) (hc : '\n' ∉ [' ', c]) : Token.IsFiller ['/', '/', ' ', c, '\n'] :=
    .comment hc .nil
  have hblank (c : Char) (hc : Token.isBlank c) (lexeme : List Char) : Token.IsGap lexeme [c] :=
    Token.isGap_blank hc .nil lexeme
  have hspaced : Token.Spaced (Token.lexemes (Token.ofSource "print(print/print);"))
      "// a\nprint ( print / // b\nprint ) ;\n".toList := by
    rw [hlexemes, htext]
    refine ⟨_, _, hcomment 'a' (by decide), ?_, rfl⟩
    refine .cons (hblank ' ' rfl _) nofun (.cons (hblank ' ' rfl _) nofun
      (.cons (hblank ' ' rfl _) nofun ?_))
    refine .cons (Token.isGap_blank rfl (hcomment 'b' (by decide)) _) nofun ?_
    exact .cons (hblank ' ' rfl _) nofun (.cons (hblank ' ' rfl _) nofun
      (.last (hblank '\n' rfl _)))
  exact ⟨⟨hvalid, hspaced⟩, (compile_of_spaced hvalid hspaced).2⟩

end LiterateFun
