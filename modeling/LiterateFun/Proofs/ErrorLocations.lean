import LiterateFun.Compile
import LiterateFun.Proofs.Documents.Reading
import LiterateFun.Proofs.Parsing.Assignments
import LiterateFun.Proofs.Scoping.Failures
import LiterateFun.Proofs.Scoping.RegistrationOrder
import Mathlib

-- The whole library: `cbv` unfolds library functions by the equations that stand in it.

/-!
This module contains where the errors of programs and of documents are shown. The span of an error
is one of the source, its line and its column can be counted in the source, and the text that it
shows is the one that the error is about.
-/

namespace LiterateFun

def Text.lineColumn (text : List Char) : Nat × Nat :=
  (1 + text.count '\n', 1 + (text.reverse.takeWhile (· ≠ '\n')).length)

theorem Position.lineColumn_after_first (text : List Char) :
    ((first.after text).line, (first.after text).column) = Text.lineColumn text := by
  rw [← List.reverse_reverse text]
  induction text.reverse with
  | nil => rfl
  | cons c text ih =>
    rw [List.reverse_cons, after_append, after_cons, after_nil, Text.lineColumn]
    obtain ⟨hline, hcolumn⟩ := Prod.mk.inj ih
    simp only [next, hline, hcolumn]
    by_cases hc : c = '\n'
    · simp [hc, Nat.add_assoc]
    · simp [hc, Nat.add_comm]

/-- The span is one of the source: its ends are places of the source where a character may start. -/
structure Span.Fits (source : String) (span : Span) : Prop where
  ordered : span.start ≤ span.stop
  bounded : span.stop ≤ Text.byteSize source.toList
  start_isBoundary : (Position.ofOffset? source span.start).isSome
  stop_isBoundary : (Position.ofOffset? source span.stop).isSome

theorem Position.ofOffset?_byteSize {source : String} {before after : List Char}
    (h : before ++ after = source.toList) :
    ofOffset? source (Text.byteSize before) = some (first.after before) := by
  have hseek : first.seek? source.toList (Text.byteSize before) =
      some (first.after before, after) :=
    seek?_eq_some_iff.2 ⟨before, h, rfl, by simp [first]⟩
  rw [ofOffset?, hseek]
  rfl

theorem Position.shown?_byteSize {source : String} {before after : List Char}
    (h : before ++ after = source.toList) :
    shown? source (Text.byteSize before) = some (first.after before) := by
  have hle : Text.byteSize before ≤ Text.byteSize source.toList := by
    rw [← h, Text.byteSize_append]
    omega
  rw [shown?, Nat.min_eq_left hle, ofOffset?_byteSize h]

theorem Span.fits_of_text? {source text : String} {span : Span}
    (h : span.text? source = some text) : span.Fits source := by
  obtain ⟨before, after, hsource, rfl⟩ := Span.text?_eq_some_iff.1 h
  have hstop : (before ++ text.toList) ++ after = source.toList := by
    rw [List.append_assoc]
    exact hsource
  constructor
  · simp
  · rw [← hstop, Text.byteSize_append _ after]
    exact Nat.le_add_right ..
  · rw [Position.ofOffset?_byteSize hsource]
    rfl
  · rw [Position.ofOffset?_byteSize hstop]
    rfl

def ResolveError.Names (e : ResolveError) (text : String) : Prop :=
  match e with
  | .duplicateDefinition name _ =>
    name = text ∨ ∃ owner, IsWord owner ∧ name = owner ++ "::" ++ text
  | .undefinedIdentifier name _ => name = text
  | .usedBeforeDeclaration name _ => name = text
  | .invalidAssignmentTarget => False

def CompileError.Agrees (source : String) (span : Span) (text : String) : CompileError → Prop
  | .parse e =>
    e.token.lexeme = text ∧ Position.shown? source span.start = some e.token.position ∧
      ∃ before, before <+: source.toList ∧ Text.byteSize before = span.start ∧
        (e.token.position.line, e.token.position.column) = Text.lineColumn before
  | .resolve e => IsWord text ∧ e.Names text

def CompileError.IsLocated (source : String) (e : CompileError) : Prop :=
  ∃ span text, e.span? = some span ∧ span.Fits source ∧ span.text? source = some text ∧
    e.Agrees source span text

theorem ParseError.isLocated {source : String} {before rest : List Char}
    (hsource : before ++ rest = source.toList) {e : ParseError}
    (he : e.token ∈ Token.scan (Position.first.after before) rest) :
    (CompileError.parse e).IsLocated source := by
  obtain ⟨htext, taken, ⟨after, htaken⟩, hposition⟩ := Token.exists_of_mem_scan_rest hsource he
  have hfits := Span.fits_of_text? htext
  have hstart : e.token.span.start = Text.byteSize taken := by
    simp [Token.span, hposition, Position.first]
  refine ⟨e.token.span, e.token.lexeme, rfl, hfits, htext, rfl, ?_, taken, ⟨after, htaken⟩,
    hstart.symm, ?_⟩
  · rw [hstart, hposition]
    exact Position.shown?_byteSize htaken
  · rw [hposition]
    exact Position.lineColumn_after_first taken

def Identifier.IsFound (source : String) (x : Identifier) : Prop :=
  x.span.text? source = some x.name ∧ IsWord x.name

theorem Denoted.isFound {source : String} {before rest : List Char} {ts : List Token}
    {xs : List Identifier} (h : Denoted ts xs) (hsource : before ++ rest = source.toList)
    (hts : ts ⊆ Token.scan (Position.first.after before) rest) : ∀ x ∈ xs, x.IsFound source := by
  intro x hx
  obtain ⟨t, ht, hkind, hx⟩ := h x hx
  have hlexeme := Token.lexeme_of_mem_scan (hts ht) (w := x.name.toList) (by rw [hkind]; rfl)
  have htext := (Token.exists_of_mem_scan_rest hsource (hts ht)).1
  rw [String.toList_inj.1 hlexeme] at htext
  refine ⟨?_, Token.isWord_of_mem_scan (hts ht) hkind⟩
  rw [hx]
  exact htext

theorem Identifier.IsFound.isLocated {source : String} {x : Identifier} (hx : x.IsFound source)
    {e : ResolveError} (hspan : e.span? = some x.span) (hnames : e.Names x.name) :
    (CompileError.resolve e).IsLocated source :=
  ⟨x.span, x.name, hspan, Span.fits_of_text? hx.1, hx.1, hx.2, hnames⟩

theorem ResolveError.IsAbout.isLocated {source : String} {e : ResolveError} {xs : List Identifier}
    (h : e.IsAbout xs) (hxs : ∀ x ∈ xs, x.IsFound source) :
    (CompileError.resolve e).IsLocated source := by
  cases e with
  | duplicateDefinition name span =>
    obtain ⟨x, hx, rfl, hname⟩ := h
    refine (hxs x hx).isLocated rfl ?_
    rcases hname with rfl | ⟨owner, howner, rfl⟩
    · exact .inl rfl
    · exact .inr ⟨owner.name, (hxs owner howner).2, rfl⟩
  | undefinedIdentifier name span =>
    obtain ⟨x, hx, rfl, rfl⟩ := h
    exact (hxs x hx).isLocated rfl rfl
  | usedBeforeDeclaration name span =>
    obtain ⟨x, hx, rfl, rfl⟩ := h
    exact (hxs x hx).isLocated rfl rfl
  | invalidAssignmentTarget => exact h.elim

open Resolution

theorem isLocated_of_compile {source : String} {e : CompileError} (h : compile source = .error e) :
    e.IsLocated source := by
  unfold compile at h
  cases hsource : Block.ofSource source with
  | error e' =>
    rw [hsource] at h
    cases h
    have he := Block.token_mem_of_parse_error hsource (Token.exists_endOfInput_mem_scan _ _)
    exact ParseError.isLocated (List.nil_append source.toList) he
  | ok b =>
    obtain ⟨rest, hreads, -⟩ := Block.parse_eq_ok_iff.1 hsource
    obtain ⟨taken, heq, hb⟩ := Grammar.takes_block _ hreads
    have hfound : ∀ x ∈ blockIdentifiers b, x.IsFound source := by
      refine hb.denoted.isFound (List.nil_append source.toList) ?_
      change taken ⊆ Token.ofSource source
      rw [heq]
      exact List.subset_append_left ..
    rw [hsource] at h
    simp only [Except.mapError, bind, Except.bind] at h
    split at h
    next hresolve =>
      cases h
      have habout := Session.isAbout_of_resolve hb.assignable (congrArg (·.2.2) hresolve)
      exact habout.isLocated hfound
    next session hresolve =>
      -- No declaration was added to the session, so there is nothing left that could fail.
      have hpending : session.pending = [] := by
        rw [← congrArg (·.2.1.pending) hresolve]
        exact (Session.registered_withBuiltins Prelude.builtins).pending
      cases hfinish : session.finish.2 with
      | ok sites =>
        rw [hfinish] at h
        cases h
      | error e' =>
        rw [hfinish] at h
        cases h
        have habout := Session.isAbout_of_finish (by rw [hpending]; nofun) hfinish
        rw [hpending] at habout
        exact habout.isLocated nofun

theorem Document.isFound_of_mem_declarations {source : String} {doc : Document}
    (h : ofSource source = .ok doc) {d : Declaration} (hd : d ∈ doc.declarations) :
    (∀ x ∈ d.identifiers, x.IsFound source) ∧ Assignable d.subexpressions := by
  obtain ⟨span, before, rest, hsource, hparse⟩ := exists_parsesIn_of_mem h hd
  obtain ⟨_, _, _, _, -, -, -, hdeclaration, -⟩ := Declaration.exists_of_parse hparse
  have hdenoted := Declaration.denoted_of_parse hparse
  exact ⟨hdenoted.isFound hsource (List.Subset.refl _), hdeclaration.assignable⟩

theorem isLocated_of_compileDocument {source : String} {e : CompileError}
    (h : compileDocument source = .error e) : e.IsLocated source := by
  unfold compileDocument at h
  cases hsource : Document.ofSource source with
  | error e' =>
    rw [hsource] at h
    cases h
    have hread : Document.read (Position.first.after []) source.toList = .error e' :=
      Document.eq_error_of_bind hsource
    obtain ⟨taken, rest, htaken, hparse⟩ := Document.parsesIn_of_read_error hread
    have he := Declaration.token_mem_of_parse_error hparse (Token.exists_endOfInput_mem_scan _ _)
    exact ParseError.isLocated htaken he
  | ok doc =>
    have hfound : ∀ x ∈ doc.declarations.flatMap Declaration.identifiers, x.IsFound source := by
      intro x hx
      obtain ⟨d, hd, hx⟩ := List.mem_flatMap.1 hx
      exact (Document.isFound_of_mem_declarations hsource hd).1 x hx
    rw [hsource] at h
    simp only [Except.mapError, bind, Except.bind] at h
    split at h
    next hadd =>
      cases h
      exact (Session.isAbout_of_addAll (congrArg Prod.snd hadd)).isLocated hfound
    next session hadd =>
      have hpending : ∀ d ∈ session.pending, ∃ d' ∈ doc.declarations, ∃ id,
          d = d'.withName { d'.name with id } := by
        intro d hd
        have hsession : (Session.addAll _ doc.declarations).1 = session := congrArg Prod.fst hadd
        rw [← hsession] at hd
        rcases Session.exists_of_mem_pending hd with hd | hd
        · rw [(Session.registered_withBuiltins Prelude.builtins).pending] at hd
          cases hd
        · exact hd
      cases hfinish : session.finish.2 with
      | ok sites =>
        rw [hfinish] at h
        cases h
      | error e' =>
        rw [hfinish] at h
        cases h
        have hassignable : ∀ d ∈ session.pending, Assignable d.subexpressions := by
          intro d hd
          obtain ⟨d', hd', id, rfl⟩ := hpending d hd
          have hd' := (Document.isFound_of_mem_declarations hsource hd').2
          cases d' <;> exact hd'
        have habout := Session.isAbout_of_finish hassignable hfinish
        refine (habout.mono ?_).isLocated hfound
        intro x hx
        obtain ⟨d, hd, hx⟩ := List.mem_flatMap.1 hx
        obtain ⟨d', hd', id, rfl⟩ := hpending d hd
        rcases Declaration.mem_identifiers_withName hx with rfl | hx
        · exact ⟨d'.name, List.mem_flatMap.2 ⟨d', hd', d'.name_mem_identifiers⟩, rfl, rfl⟩
        · exact ⟨x, List.mem_flatMap.2 ⟨d', hd', hx⟩, rfl, rfl⟩

/--
Every error of a program or of a document is shown at a place of its source. It is never about the
target of an assignment.
-/
theorem compile_error_isLocated {source : String} {e : CompileError}
    (h : compile source = .error e ∨ compileDocument source = .error e) :
    e ≠ .resolve .invalidAssignmentTarget ∧ e.IsLocated source := by
  have hlocated : e.IsLocated source := h.elim isLocated_of_compile isLocated_of_compileDocument
  refine ⟨?_, hlocated⟩
  rintro rfl
  obtain ⟨span, text, hspan, -⟩ := hlocated
  cases hspan

def methodTwice : String :=
  "é\n\\class\x7bA\x7d\x7b\x7d \\fun\x7bA::go\x7d\x7b\x7d\x7b\x7d\n" ++
  "\\fun\x7bA::go\x7d\x7b\x7d\x7b\x7d"

theorem compileDocument_methodTwice :
    compileDocument methodTwice = .error (.resolve (.duplicateDefinition "A::go" ⟨39, 41⟩)) := by
  cbv

theorem compile_error_isLocated_methodTwice :
    compileDocument methodTwice = .error (.resolve (.duplicateDefinition "A::go" ⟨39, 41⟩)) ∧
      CompileError.IsLocated methodTwice (.resolve (.duplicateDefinition "A::go" ⟨39, 41⟩)) :=
  ⟨compileDocument_methodTwice, (compile_error_isLocated (.inr compileDocument_methodTwice)).2⟩

end LiterateFun
