import LiterateFun.Proofs.Printing.Parsed
import LiterateFun.Proofs.Spacing.Scanning
import Mathlib

-- The whole library: `cbv` unfolds library functions by the equations that stand in it.

/-!
This module contains the text that a declaration in the middle of a source is parsed from. It
reaches from a backslash to a closing brace, and neither what is before it nor what comes after it
has an influence on the declaration, apart from the places in it.
-/

namespace LiterateFun

open Parse Grammar

def Span.moved (distance : Nat) (s : Span) : Span where
  start := s.start + distance
  stop := s.stop + distance

def Identifier.moved (distance : Nat) (x : Identifier) : Identifier :=
  { x with span := x.span.moved distance }

def Declaration.moved (distance : Nat) (d : Declaration) : Declaration :=
  d.relabel (Identifier.moved distance)

def AgreeBefore (offset : Nat) (source other : String) : Prop :=
  source.toByteArray.extract 0 offset = other.toByteArray.extract 0 offset

structure Declaration.IsParsedFrom (d : Declaration) (span : Span) (source : String)
    (offset : Nat) : Prop where
  /-- Only blanks and comments are between the offset and the declaration. -/
  gap : ∃ gap, Span.text? source ⟨offset, span.start⟩ = some gap ∧ Token.IsFiller gap.toList
  /-- The text of the declaration is a program that consists of it. -/
  text : ∃ text, span.text? source = some text ∧ text.toList.head? = some '\\' ∧
    text.toList.getLast? = some '}' ∧
    ∃ d', Block.ofSource text = .ok [.declaration d'] ∧ d'.moved span.start = d
  /-- What comes after the declaration has no influence on it. -/
  alone : ∀ other, AgreeBefore span.stop source other →
    Declaration.ofSource? other offset = some (.ok (d, span))

namespace Grammar

section

variable {g : Token → Token} {f : Identifier → Identifier}

/-- A change of tokens that keeps their kinds, and what it does to the identifiers. -/
structure Carries (g : Token → Token) (f : Identifier → Identifier) : Prop where
  kind : ∀ t, (g t).kind = t.kind
  denotes : ∀ t x, t.Denotes x → (g t).Denotes (f x)

theorem Carries.of_kind (h : Carries g f) {t : Token} {kind : TokenKind} (ht : t.kind = kind) :
    (g t).kind = kind := by
  rw [h.kind, ht]

mutual

theorem IsExpression.relabel (hg : Carries g f) {ts : List Token} {e : Expr}
    (h : IsExpression ts e) : IsExpression (ts.map g) (e.relabel f) := by
  match h with
  | .binary h => exact .binary (h.relabel hg)
  | .assign hx ht hvalue =>
    rw [List.map_append, List.map_cons]
    exact .assign (hx.relabel hg) (hg.of_kind ht) (hvalue.relabel hg)
  | .declare hx ht hvalue =>
    rw [List.map_append, List.map_cons]
    exact .declare (hx.relabel hg) (hg.of_kind ht) (hvalue.relabel hg)

theorem IsBinary.relabel (hg : Carries g f) {ts : List Token} {e : Expr} (h : IsBinary ts e) :
    IsBinary (ts.map g) (e.relabel f) := by
  match h with
  | .postfixed h => exact .postfixed (h.relabel hg)
  | .operation hleft ht hop hright =>
    rw [List.map_append, List.map_cons]
    exact .operation (hleft.relabel hg) (hg.of_kind ht) hop (hright.relabel hg)

theorem IsPostfixed.relabel (hg : Carries g f) {ts : List Token} {e : Expr}
    (h : IsPostfixed ts e) : IsPostfixed (ts.map g) (e.relabel f) := by
  match h with
  | .primary h => exact .primary (h.relabel hg)
  | .call hcallee hopen hargs hclose =>
    rw [List.map_append, List.map_cons, List.map_append]
    exact .call (hcallee.relabel hg) (hg.of_kind hopen) (hargs.relabel hg) (hg.of_kind hclose)

theorem IsArguments.relabel (hg : Carries g f) {ts : List Token} {es : List Expr}
    (h : IsArguments ts es) : IsArguments (ts.map g) (Expr.relabelList f es) := by
  match h with
  | .none => exact .none
  | .some h => exact .some (h.relabel hg)

theorem IsSomeArguments.relabel (hg : Carries g f) {ts : List Token} {es : List Expr}
    (h : IsSomeArguments ts es) : IsSomeArguments (ts.map g) (Expr.relabelList f es) := by
  match h with
  | .last h => exact .last (h.relabel hg)
  | .cons he ht hes =>
    rw [List.map_append, List.map_cons]
    exact .cons (he.relabel hg) (hg.of_kind ht) (hes.relabel hg)

theorem IsPrimary.relabel (hg : Carries g f) {ts : List Token} {e : Expr} (h : IsPrimary ts e) :
    IsPrimary (ts.map g) (e.relabel f) := by
  match h with
  | .string h => exact .string (hg.of_kind h)
  | .number h => exact .number (hg.of_kind h)
  | .identifier h => exact .identifier (hg.denotes _ _ h)
  | .parens hopen h hclose =>
    rw [List.map_cons, List.map_append]
    exact .parens (hg.of_kind hopen) (h.relabel hg) (hg.of_kind hclose)

end

theorem IsSomeParameters.relabel (hg : Carries g f) {ts : List Token} {xs : List Identifier}
    (h : IsSomeParameters ts xs) : IsSomeParameters (ts.map g) (xs.map f) := by
  induction h with
  | last h => exact .last (hg.denotes _ _ h)
  | cons h ht _ ih => exact .cons (hg.denotes _ _ h) (hg.of_kind ht) ih

theorem IsParameters.relabel (hg : Carries g f) {ts : List Token} {xs : List Identifier}
    (h : IsParameters ts xs) : IsParameters (ts.map g) (xs.map f) := by
  cases h with
  | none hopen hclose => exact .none (hg.of_kind hopen) (hg.of_kind hclose)
  | some hopen h hclose =>
    rw [List.map_cons, List.map_append]
    exact .some (hg.of_kind hopen) (h.relabel hg) (hg.of_kind hclose)

theorem IsName.relabel (hg : Carries g f) {ts : List Token} {x : Identifier} (h : IsName ts x) :
    IsName (ts.map g) (f x) := by
  obtain ⟨hopen, h, hclose⟩ := h
  exact .mk (hg.of_kind hopen) (hg.denotes _ _ h) (hg.of_kind hclose)

theorem IsMethodName.relabel (hg : Carries g f) {ts : List Token} {owner name : Identifier}
    (h : IsMethodName ts owner name) : IsMethodName (ts.map g) (f owner) (f name) := by
  obtain ⟨hopen, howner, hcolon, hname, hclose⟩ := h
  exact .mk (hg.of_kind hopen) (hg.denotes _ _ howner) (hg.of_kind hcolon)
    (hg.denotes _ _ hname) (hg.of_kind hclose)

mutual

theorem IsBlock.relabel (hg : Carries g f) {ts : List Token} {b : Block} (h : IsBlock ts b) :
    IsBlock (ts.map g) (relabelStatements f b) := by
  match h with
  | .nil => exact .nil
  | .cons hs hb =>
    rw [List.map_append]
    exact .cons (hs.relabel hg) (hb.relabel hg)

theorem IsBraced.relabel (hg : Carries g f) {ts : List Token} {b : Block} (h : IsBraced ts b) :
    IsBraced (ts.map g) (relabelStatements f b) := by
  match h with
  | .mk hopen hb hclose =>
    rw [List.map_cons, List.map_append]
    exact .mk (hg.of_kind hopen) (hb.relabel hg) (hg.of_kind hclose)

theorem IsStatement.relabel (hg : Carries g f) {ts : List Token} {s : Statement}
    (h : IsStatement ts s) : IsStatement (ts.map g) (s.relabel f) := by
  match h with
  | .conditional ht h => exact .conditional (hg.of_kind ht) (h.relabel hg)
  | .declaration ht h => exact .declaration (hg.of_kind ht) (h.relabel hg)
  | .return ht h hclose =>
    rw [List.map_cons, List.map_append]
    exact .return (hg.of_kind ht) (h.relabel hg) (hg.of_kind hclose)
  | .expression h hclose =>
    rw [List.map_append]
    exact .expression (h.relabel hg) (hg.of_kind hclose)

theorem IsConditional.relabel (hg : Carries g f) {ts : List Token} {s : Statement}
    (h : IsConditional ts s) : IsConditional (ts.map g) (s.relabel f) := by
  match h with
  | .plain hcondition hconsequent =>
    rw [List.map_append]
    exact .plain (hcondition.relabel hg) (hconsequent.relabel hg)
  | .otherwise hcondition hconsequent ht halternative =>
    rw [List.map_append, List.map_append, List.map_cons]
    exact .otherwise (hcondition.relabel hg) (hconsequent.relabel hg) (hg.of_kind ht)
      (halternative.relabel hg)
  | .elseIf hcondition hconsequent helse hif h =>
    rw [List.map_append, List.map_append, List.map_cons, List.map_cons]
    exact .elseIf (hcondition.relabel hg) (hconsequent.relabel hg) (hg.of_kind helse)
      (hg.of_kind hif) (h.relabel hg)

theorem IsDeclaration.relabel (hg : Carries g f) {ts : List Token} {d : Declaration}
    (h : IsDeclaration ts d) : IsDeclaration (ts.map g) (d.relabel f) := by
  match h with
  | .class ht hname hbody =>
    rw [List.map_cons, List.map_append]
    exact .class (hg.of_kind ht) (hname.relabel hg) (hbody.relabel hg)
  | .function ht hname hxs hbody =>
    rw [List.map_cons, List.map_append, List.map_append]
    exact .function (hg.of_kind ht) (hname.relabel hg) (hxs.relabel hg) (hbody.relabel hg)
  | .method ht hname hxs hbody =>
    rw [List.map_cons, List.map_append, List.map_append]
    exact .method (hg.of_kind ht) (hname.relabel hg) (hxs.relabel hg) (hbody.relabel hg)

end

end

end Grammar

def Position.since (start p : Position) : Position where
  offset := p.offset - start.offset
  line := p.line - start.line + 1
  column := if p.line = start.line then p.column - start.column + 1 else p.column

structure Position.Follows (start p : Position) : Prop where
  offset : start.offset ≤ p.offset
  line : start.line ≤ p.line
  column : p.line = start.line → start.column ≤ p.column

namespace Position

variable {start p : Position}

theorem Follows.next (h : start.Follows p) (c : Char) : start.Follows (p.next c) := by
  obtain ⟨hoffset, hline, hcolumn⟩ := h
  constructor
  · exact Nat.le_add_right_of_le hoffset
  · simp only [Position.next]
    split <;> omega
  · simp only [Position.next]
    split <;> omega

theorem Follows.after (h : start.Follows p) (text : List Char) :
    start.Follows (p.after text) := by
  induction text generalizing p with
  | nil => exact h
  | cons c text ih => exact ih (h.next c)

theorem Follows.since_next (h : start.Follows p) (c : Char) :
    start.since (p.next c) = (start.since p).next c := by
  obtain ⟨hoffset, hline, hcolumn⟩ := h
  by_cases hc : c = '\n'
  · simp only [since, Position.next, if_pos hc, mk.injEq]
    refine ⟨by omega, by omega, if_neg (by omega)⟩
  · simp only [since, Position.next, if_neg hc, mk.injEq]
    refine ⟨by omega, trivial, ?_⟩
    split
    · omega
    · rfl

theorem Follows.since_after (h : start.Follows p) (text : List Char) :
    start.since (p.after text) = (start.since p).after text := by
  induction text generalizing p with
  | nil => rfl
  | cons c text ih => rw [after_cons, after_cons, ih (h.next c), h.since_next]

theorem since_self (start : Position) : start.since start = .first := by
  simp [since, first]

end Position

def Token.since (start : Position) (t : Token) : Token :=
  { t with position := start.since t.position }

theorem Token.map_since_scan {start p : Position} (h : start.Follows p) (text : List Char) :
    (scan p text).map (Token.since start) = scan (start.since p) text := by
  fun_induction scan p text with
  | case1 p text p' hgap =>
    rw [scan_of_gap hgap, ← h.since_after]
    rfl
  | case2 p text p' c rest hrest r ih =>
    have hfollows := (h.after (splitGap text).1).after r.lexeme
    rw [scan_of_read hrest, List.map_cons, ih hfollows, (h.after _).since_after, h.since_after]
    simp only [Token.since, p', h.since_after]
    rfl

def Identifier.since (start : Position) (x : Identifier) : Identifier :=
  { x with span := ⟨x.span.start - start.offset,
      x.span.start - start.offset + (x.span.stop - x.span.start)⟩ }

theorem Token.carries_since (start : Position) :
    Grammar.Carries (Token.since start) (Identifier.since start) := by
  refine ⟨fun t => rfl, fun t x h => ⟨h.1, ?_⟩⟩
  obtain ⟨-, hx⟩ := h
  rw [hx]
  simp [Identifier.since, Token.span, Token.since, Position.since]

theorem Identifier.moved_since {start : Position} {x : Identifier} {t : Token} (h : t.Denotes x)
    (ht : start.offset ≤ t.position.offset) : (x.since start).moved start.offset = x := by
  obtain ⟨-, hx⟩ := h
  rw [hx]
  simp only [Identifier.moved, Identifier.since, Span.moved, Token.span, Identifier.mk.injEq,
    Span.mk.injEq, true_and]
  omega

namespace Token

theorem IsFiller.scan_append {filler : List Char} (h : IsFiller filler) (p : Position)
    (text : List Char) :
    scan p (filler ++ '\\' :: text) = scan (p.after filler) ('\\' :: text) := by
  have hrest := splitGap_cons (c := '\\') (by decide) (by decide) text
  have hboth := h.splitGap_append ('\\' :: text)
  rw [hrest] at hboth
  have hgap := Token.splitGap_append ('\\' :: text)
  have hfiller := Token.splitGap_append (filler ++ '\\' :: text)
  rw [hrest] at hgap
  rw [hboth] at hfiller
  rw [scan_of_read hboth, scan_of_read hrest, List.append_left_eq_self.1 hgap,
    List.append_cancel_right hfiller, Position.after_nil]

end Token

theorem AgreeBefore.exists_eq_append {source other : String} {before after : List Char}
    (hsource : source.toList = before ++ after)
    (h : AgreeBefore (Text.byteSize before) source other) :
    ∃ after', other.toList = before ++ after' := by
  have hbytes : source.toByteArray = before.utf8Encode ++ after.utf8Encode := by
    rw [← String.utf8Encode_toList, hsource, List.utf8Encode_append]
  have hleft := ByteArray.extract_append_eq_left (b := after.utf8Encode)
    (Text.byteSize_eq_size before)
  rw [AgreeBefore, hbytes, hleft] at h
  have hle : Text.byteSize before ≤ other.toByteArray.size := by
    have hsize := congrArg ByteArray.size h
    rw [← Text.byteSize_eq_size, ByteArray.size_extract] at hsize
    omega
  have hother := ByteArray.extract_eq_extract_append_extract (a := other.toByteArray)
    (Text.byteSize before) (Nat.zero_le _) hle
  rw [ByteArray.extract_zero_size, ← h, ← String.utf8Encode_toList] at hother
  obtain ⟨after', hafter⟩ := List.isPrefix_of_utf8Encode_append_eq_utf8Encode _ hother.symm
  exact ⟨after', hafter.symm⟩

theorem Token.exists_of_scan_backslash {p : Position} {text : List Char} {t : Token}
    {ts : List Token} (h : scan p text = t :: ts) (ht : t.kind = .symbol .backslash) :
    ∃ rest, (splitGap text).2 = '\\' :: rest := by
  cases hgap : (splitGap text).2 with
  | nil =>
    rw [scan_of_gap hgap] at h
    cases h
    cases ht
  | cons c rest =>
    rw [scan_of_read hgap] at h
    cases h
    have hvalue : (read c rest).value = .symbol .backslash := ht
    have hlexeme : (read c rest).lexeme = ['\\'] := lexeme_of_read (by rw [hvalue]; rfl)
    have hsplits : (read c rest).lexeme ++ (read c rest).rest = c :: rest := read_splits c rest
    rw [hlexeme] at hsplits
    rw [← (List.cons.inj hsplits).1]
    exact ⟨rest, rfl⟩

namespace Declaration

/-- A text from a backslash to a closing brace whose tokens are a declaration. -/
structure IsSpelled (d : Declaration) (p : Position) (text : List Char) : Prop where
  ends : ∃ inner, text = '\\' :: (inner ++ ['}'])
  tokens : ∃ t ts t', t.kind = .symbol .backslash ∧ IsDeclaration (ts ++ [t']) d ∧
    t.span.start = p.offset ∧ t'.span.stop = (p.after text).offset ∧
    ∀ after, Token.scan p (text ++ after) =
      t :: ts ++ [t'] ++ Token.scan (p.after text) after

theorem exists_isSpelled {p : Position} {text : List Char} {d : Declaration} {span : Span}
    (h : Declaration.parse (Token.scan p ('\\' :: text)) = .ok (d, span)) :
    ∃ taken after, '\\' :: text = taken ++ after ∧ d.IsSpelled p taken ∧
      span = ⟨p.offset, (p.after taken).offset⟩ := by
  obtain ⟨inner, after, t, ts, t', rfl, hscan, ht, hdeclaration, hposition, hspan, hspan'⟩ :=
    Declaration.exists_scan_of_parse h
  refine ⟨'\\' :: (inner ++ ['}']), after, by simp, ⟨⟨inner, rfl⟩, ?_⟩, hspan'⟩
  have hmem : t' ∈ Token.scan p (('\\' :: inner) ++ '}' :: after) := by
    rw [List.cons_append, hscan]
    simp
  obtain ⟨ts', hts'⟩ := Token.exists_scan_of_mem hmem hposition
  have hsame := hts' after
  rw [List.cons_append, hscan] at hsame
  obtain ⟨rfl, hlast⟩ := List.append_inj' hsame rfl
  obtain ⟨rfl, -⟩ := List.cons.inj hlast
  rw [hspan, Span.mk.injEq] at hspan'
  refine ⟨t, ts, _, ht, hdeclaration, hspan'.1, hspan'.2, fun after => ?_⟩
  have hafter := hts' after
  rw [List.append_cons] at hafter
  simpa using hafter

theorem IsSpelled.parse {d : Declaration} {p : Position} {text : List Char}
    (h : d.IsSpelled p text) (after : List Char) :
    Declaration.parse (Token.scan p (text ++ after)) =
      .ok (d, ⟨p.offset, (p.after text).offset⟩) := by
  obtain ⟨t, ts, t', ht, hdeclaration, hstart, hstop, hscan⟩ := h.tokens
  rw [hscan, ← hstart, ← hstop]
  apply Declaration.parse_of_reads
  simpa using hdeclaration.reads ht

theorem IsSpelled.names_kinds {d : Declaration} {p : Position} {text : List Char}
    (h : d.IsSpelled p text) :
    TokenKind.names (Token.kinds text) = d.identifiers.map (·.name) := by
  obtain ⟨t, ts, t', ht, hdeclaration, -, -, hscan⟩ := h.tokens
  have hend := Token.map_kind_scan_eq_kinds (p.after text) []
  rw [Token.kinds_of_gap rfl] at hend
  rw [← Token.map_kind_scan_eq_kinds p, ← List.append_nil text, hscan, List.map_append, hend]
  exact ((hdeclaration.inOrder ht).names _).trans (List.append_nil _)

theorem IsSpelled.ofSource {d : Declaration} {p : Position} {text : List Char}
    (h : d.IsSpelled p text) :
    ∃ d', Block.ofSource (String.ofList text) = .ok [.declaration d'] ∧ d'.moved p.offset = d := by
  obtain ⟨t, ts, t', ht, hdeclaration, -, -, hscan⟩ := h.tokens
  have hcarries := Token.carries_since p
  have htokens : Token.scan p text = t :: ts ++ [t'] ++ Token.scan (p.after text) [] := by
    rw [← hscan, List.append_nil]
  refine ⟨d.relabel (Identifier.since p), ?_, ?_⟩
  · have hblock : IsBlock ((t :: ts ++ [t']).map (Token.since p))
        [.declaration (d.relabel (Identifier.since p))] := by
      have hstatement :=
        IsStatement.declaration (hcarries.of_kind ht) (hdeclaration.relabel hcarries)
      simpa using IsBlock.cons hstatement .nil
    have hfollows : p.Follows p := ⟨Nat.le_refl _, Nat.le_refl _, fun _ => Nat.le_refl _⟩
    have hmoved := Token.map_since_scan hfollows text
    rw [Position.since_self, htokens, List.map_append] at hmoved
    rw [Block.ofSource, Token.ofSource, String.toList_ofList, ← hmoved]
    apply hblock.parse
    rw [Token.scan_of_gap rfl]
    rintro _ ⟨⟩
    rfl
  · rw [moved, relabel_relabel]
    apply relabel_eq_self
    intro x hx
    obtain ⟨u, hu, hdenotes⟩ := hdeclaration.denoted ht x hx
    apply Identifier.moved_since hdenotes
    have hmem : u ∈ Token.scan p text := by
      rw [htokens, List.append_assoc, List.cons_append, ← List.append_assoc]
      exact List.mem_cons_of_mem _ (List.mem_append_left _ hu)
    exact Nat.le_of_add_right_le (Token.offset_le_of_mem_scan hmem)

theorem exists_isSpelled_of_parse {before rest : List Char} {d : Declaration} {span : Span}
    (h : Declaration.parse (Token.scan (Position.first.after before) rest) = .ok (d, span)) :
    ∃ gap taken after, rest = gap ++ (taken ++ after) ∧ Token.IsFiller gap ∧
      d.IsSpelled (Position.first.after (before ++ gap)) taken ∧
      span = ⟨Text.byteSize (before ++ gap), Text.byteSize (before ++ gap ++ taken)⟩ := by
  obtain ⟨t, ts, _, _, hscan, ht, -⟩ := Declaration.exists_of_parse h
  obtain ⟨text, htext⟩ := Token.exists_of_scan_backslash hscan ht
  have hfiller := Token.isFiller_splitGap (by rw [htext]; nofun : (Token.splitGap rest).2 ≠ [])
  have hsplit := Token.splitGap_append rest
  rw [htext] at hsplit
  rw [← hsplit, hfiller.scan_append, ← Position.after_append] at h
  obtain ⟨taken, after, htaken, hspelled, hspan⟩ := exists_isSpelled h
  rw [← Position.after_append, Position.offset_after_first, Position.offset_after_first] at hspan
  exact ⟨_, taken, after, by rw [← htaken, hsplit], hfiller, hspelled, hspan⟩

def HasAllNames (d : Declaration) (span : Span) (source : String) : Prop :=
  ∃ text, span.text? source = some text ∧
    TokenKind.names (Token.kinds text.toList) = d.identifiers.map (·.name)

theorem hasAllNames_of_parse {source : String} {before rest : List Char} {d : Declaration}
    {span : Span} (hsource : before ++ rest = source.toList)
    (h : Declaration.parse (Token.scan (Position.first.after before) rest) = .ok (d, span)) :
    d.HasAllNames span source := by
  obtain ⟨gap, taken, after, rfl, -, hspelled, rfl⟩ := exists_isSpelled_of_parse h
  refine ⟨String.ofList taken, Span.text?_eq_some_iff.2 ⟨before ++ gap, after, ?_, ?_⟩, ?_⟩
  · rw [String.toList_ofList, List.append_assoc, hsource]
  · rw [String.toList_ofList]
  · rw [String.toList_ofList]
    exact hspelled.names_kinds

/-- A declaration that is parsed at an offset of a source is parsed from its own text only. -/
theorem isParsedFrom_of_ofSource {source : String} {offset : Nat} {d : Declaration} {span : Span}
    (h : Declaration.ofSource? source offset = some (.ok (d, span))) :
    d.IsParsedFrom span source offset := by
  obtain ⟨before, rest, hsource, rfl, hparse⟩ := ofSource?_eq_some_iff.1 h
  obtain ⟨gap, taken, after, rfl, hfiller, hspelled, rfl⟩ := exists_isSpelled_of_parse hparse
  obtain ⟨inner, hinner⟩ := hspelled.ends
  constructor
  · refine ⟨String.ofList gap, Span.text?_eq_some_iff.2 ⟨before, taken ++ after, ?_, ?_⟩, ?_⟩
    · rw [String.toList_ofList, hsource]
    · rw [String.toList_ofList]
    · rw [String.toList_ofList]
      exact hfiller
  · have hbody := hspelled.ofSource
    rw [Position.offset_after_first] at hbody
    refine ⟨String.ofList taken, Span.text?_eq_some_iff.2 ⟨before ++ gap, after, ?_, ?_⟩, ?_, ?_,
      hbody⟩
    · rw [String.toList_ofList, List.append_assoc, hsource]
    · rw [String.toList_ofList]
    · rw [String.toList_ofList, hinner]
      rfl
    · rw [String.toList_ofList, hinner, ← List.cons_append, List.getLast?_concat]
  · intro other hother
    have hprefix : source.toList = before ++ gap ++ taken ++ after := by
      rw [← hsource, List.append_assoc, List.append_assoc]
    obtain ⟨after', hafter⟩ := AgreeBefore.exists_eq_append hprefix hother
    rw [List.append_assoc, List.append_assoc] at hafter
    refine ofSource?_eq_some_iff.2 ⟨before, gap ++ (taken ++ after'), hafter.symm, rfl, ?_⟩
    have hparse' := hspelled.parse after'
    rw [← Position.after_append, Position.offset_after_first, Position.offset_after_first]
      at hparse'
    rw [hinner, List.cons_append] at hparse' ⊢
    rw [hfiller.scan_append, ← Position.after_append, hparse']

def embeddedSource : String :=
  "it's // \\\n \\fun\x7bf\x7d\x7ba\x7d\x7breturn '\x7d'+a;\x7d \"it's\\"

def embedded : Declaration :=
  .function { name := "f", span := ⟨16, 17⟩ } [{ name := "a", span := ⟨19, 20⟩ }]
    [.return (.binary .add (.string "\x7d") (.identifier { name := "a", span := ⟨33, 34⟩ }))]

theorem isParsedFrom_embedded :
    Declaration.ofSource? embeddedSource 5 = some (.ok (embedded, ⟨11, 36⟩)) ∧
      embedded.IsParsedFrom ⟨11, 36⟩ embeddedSource 5 := by
  have h : Declaration.ofSource? embeddedSource 5 = some (.ok (embedded, ⟨11, 36⟩)) := by
    cbv
  exact ⟨h, isParsedFrom_of_ofSource h⟩

end Declaration

end LiterateFun
