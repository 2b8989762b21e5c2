import LiterateFun.Proofs.Positions.Restarting

/-!
This module contains the place of an error at the end of tokens that do not reach the end of their
source. Its span is empty and right after the last token. Its line and its column are counted on
from the start of that token, which is right as long as the token is on one line.
-/

namespace LiterateFun

namespace Position

theorem line_after (p : Position) (text : List Char) :
    (p.after text).line = p.line + text.count '\n' := by
  induction text generalizing p with
  | nil => rfl
  | cons c text ih =>
    rw [after_cons, ih, next, List.count_cons]
    by_cases hc : c = '\n'
    · simp [hc, Nat.add_comm, Nat.add_left_comm]
    · simp [hc]

theorem column_after {text : List Char} (h : '\n' ∉ text) (p : Position) :
    (p.after text).column = p.column + text.length := by
  induction text generalizing p with
  | nil => rfl
  | cons c text ih =>
    obtain ⟨hc, htext⟩ := not_or.1 (mt List.mem_cons.2 h)
    have hnext : (p.next c).column = p.column + 1 := if_neg (Ne.symm hc)
    rw [after_cons, ih htext, hnext, List.length_cons]
    omega

end Position

namespace Token

theorem position_endAfter_iff (t : Token) :
    (endAfter (some t)).position = t.position.after t.lexeme.toList ↔ '\n' ∉ t.lexeme.toList := by
  constructor
  · intro h hmem
    have hline := congrArg Position.line h
    rw [Position.line_after] at hline
    have hcount := List.count_pos_iff.2 hmem
    simp only [endAfter] at hline
    omega
  · intro h
    apply Eq.symm
    have hline := Position.line_after t.position t.lexeme.toList
    rw [List.count_eq_zero_of_not_mem h] at hline
    have hcolumn := Position.column_after h t.position
    have hoffset := Position.offset_after t.position t.lexeme.toList
    simp only [endAfter, span, ← hcolumn, ← hoffset]
    rw [Nat.add_zero] at hline
    rw [← hline]

theorem span_endAfter (t : Token) : (endAfter (some t)).span = ⟨t.span.stop, t.span.stop⟩ := rfl

theorem shown?_stop_of_mem {source : String} {t : Token} (ht : t ∈ ofSource source) :
    Position.shown? source t.span.stop = some (t.position.after t.lexeme.toList) := by
  obtain ⟨ts₁, ts₂, hscan⟩ := List.append_of_mem ht
  obtain ⟨before, after, hsource, hposition, -⟩ := exists_of_scan_eq_append hscan
  have hstop : (before ++ t.lexeme.toList) ++ after = source.toList := by
    rw [List.append_assoc, hsource]
  rw [span_of_position hposition, hposition, ← Position.after_append]
  exact Position.shown?_byteSize hstop

end Token

open Parse Grammar

theorem Parse.next_eq_endToken {endToken : Token} {taken rest : List Token}
    (hts : NoEnd (taken ++ rest)) (h : (next endToken rest).kind = .endOfInput) :
    next endToken rest = endToken := by
  cases rest with
  | nil => rfl
  | cons t rest => exact absurd h (hts t (List.mem_append_right taken List.mem_cons_self))

theorem Block.token_eq_endAfter {ts : List Token} {e : ParseError} (hts : NoEnd ts)
    (h : Block.parse ts = .error e) (he : e.token.kind = .endOfInput) :
    e.token = Token.endAfter ts.getLast? := by
  obtain ⟨taken, rest, rfl, -, herror⟩ := Block.exists_of_parse_error h
  rw [herror rest rfl] at h
  have htoken := congrArg ParseError.token (Except.error.inj h)
  rw [← htoken] at he ⊢
  exact next_eq_endToken hts he

theorem Declaration.token_eq_endAfter {ts : List Token} {e : ParseError} (hts : NoEnd ts)
    (h : Declaration.parse ts = .error e) (he : e.token.kind = .endOfInput) :
    e.token = Token.endAfter ts.getLast? := by
  cases settled_declaration ts with
  | @reads d taken rest hsplit _ _ hreads =>
    subst hsplit
    obtain ⟨hlt, hd⟩ := hreads _ rest (Token.kind_endAfter _) rfl
    rw [Declaration.parse, hd] at h
    cases h
  | @fails cause taken rest hsplit _ hfails =>
    subst hsplit
    rw [Declaration.parse, hfails _ rest (Token.kind_endAfter _) rfl] at h
    cases h
    exact next_eq_endToken hts he

/--
Where a part of the tokens of a source ends too early, the error is shown at the empty span after
its last token. The line and the column of the error are those of that place exactly if there is no
line feed inside of the last token.
-/
theorem ParseError.isAtEnd_of_parse {source : String} {ts : List Token} {e : ParseError}
    (hts : ts <:+: Token.ofSource source) (hne : ts ≠ []) (hnoEnd : NoEnd ts)
    (h : Block.parse ts = .error e ∨ Declaration.parse ts = .error e)
    (he : e.token.kind = .endOfInput) :
    ∃ last, ts.getLast? = some last ∧ e.span = ⟨last.span.stop, last.span.stop⟩ ∧
      (Position.shown? source last.span.stop = some e.token.position ↔
        '\n' ∉ last.lexeme.toList) := by
  have htoken : e.token = Token.endAfter ts.getLast? :=
    h.elim (fun h => Block.token_eq_endAfter hnoEnd h he)
      (fun h => Declaration.token_eq_endAfter hnoEnd h he)
  have hlast := List.getLast?_eq_some_getLast hne
  have hmem : ts.getLast hne ∈ Token.ofSource source := hts.subset (List.getLast_mem hne)
  rw [hlast] at htoken
  refine ⟨ts.getLast hne, hlast, ?_, ?_⟩
  · rw [ParseError.span, htoken, Token.span_endAfter]
  · rw [Token.shown?_stop_of_mem hmem, htoken, Option.some.injEq, eq_comm,
      Token.position_endAfter_iff]

def brokenCall : String :=
  "f(\n'a' );"

def brokenCallError : ParseError where
  cause := .unexpected [.symbol .rightParen]
  token := { kind := .endOfInput, lexeme := "", position := ⟨6, 2, 4⟩ }

theorem parse_brokenCall :
    Block.parse ((Token.ofSource brokenCall).take 3) = .error brokenCallError := by
  cbv

theorem isAtEnd_brokenCall :
    Block.parse ((Token.ofSource brokenCall).take 3) = .error brokenCallError ∧
      brokenCallError.span = ⟨6, 6⟩ ∧
      Position.shown? brokenCall 6 = some brokenCallError.token.position := by
  have hlast : ((Token.ofSource brokenCall).take 3).getLast? =
      some { kind := .string "a", lexeme := "'a'", position := ⟨3, 2, 1⟩ } := by
    decide +kernel
  have hne : (Token.ofSource brokenCall).take 3 ≠ [] := by decide +kernel
  have hnoEnd : NoEnd ((Token.ofSource brokenCall).take 3) := by
    unfold NoEnd
    decide +kernel
  obtain ⟨last, hlast', hspan, hshown⟩ := ParseError.isAtEnd_of_parse
    (List.take_prefix 3 _).isInfix hne hnoEnd (.inl parse_brokenCall) rfl
  rw [hlast] at hlast'
  cases hlast'
  exact ⟨parse_brokenCall, hspan, hshown.2 (by decide)⟩

def brokenString : String :=
  "'a\nb'"

def brokenStringError : ParseError where
  cause := .unexpected [.symbol .semicolon]
  token := { kind := .endOfInput, lexeme := "", position := ⟨5, 1, 6⟩ }

theorem not_shown_brokenString :
    (Token.ofSource brokenString).map Token.kind = [.string "a\nb", .endOfInput] ∧
      Block.parse ((Token.ofSource brokenString).take 1) = .error brokenStringError ∧
      Position.shown? brokenString brokenStringError.span.start = some ⟨5, 2, 3⟩ ∧
      brokenStringError.token.position ≠ ⟨5, 2, 3⟩ := by
  have hparse : Block.parse ((Token.ofSource brokenString).take 1) = .error brokenStringError := by
    cbv
  exact ⟨by decide +kernel, hparse, by decide +kernel, by decide⟩

end LiterateFun
