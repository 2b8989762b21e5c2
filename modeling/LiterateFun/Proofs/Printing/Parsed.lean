import LiterateFun.Proofs.Locations
import LiterateFun.Proofs.Parsing.Assignments
import LiterateFun.Proofs.Printing.ClosingBrace
import LiterateFun.Proofs.Printing.RoundTrip

/-!
This module contains the printed form of declarations that were parsed. It does not show where they
were, and where it stands in a source it is parsed to the same declaration again, exactly up to its
end.
-/

namespace LiterateFun

theorem Identifier.print_forgetSpan {x : Identifier} (h : x.id = none) :
    x.forgetSpan.print = x.print := by
  unfold Identifier.print
  rw [Identifier.forgetSpan, h]

section

variable {f : Identifier → Identifier}

mutual

theorem Expr.print_relabel (e : Expr) (h : ∀ x ∈ e.identifiers, (f x).print = x.print) :
    (e.relabel f).print = e.print := by
  match e with
  | .string value => rfl
  | .number value => rfl
  | .identifier x => rw [Expr.relabel, Expr.print, Expr.print, h x List.mem_cons_self]
  | .binary op left right =>
    obtain ⟨hleft, hright⟩ := List.forall_mem_append.1 h
    rw [Expr.relabel, Expr.print, Expr.print, left.print_relabel hleft,
      right.print_relabel hright]
  | .call callee arguments =>
    obtain ⟨hcallee, harguments⟩ := List.forall_mem_append.1 h
    rw [Expr.relabel, Expr.print, Expr.print, callee.print_relabel hcallee,
      Expr.printEach_relabel arguments harguments]
  | .assign target value =>
    obtain ⟨htarget, hvalue⟩ := List.forall_mem_append.1 h
    rw [Expr.relabel, Expr.print, Expr.print, target.print_relabel htarget,
      value.print_relabel hvalue]
  | .declare x value =>
    obtain ⟨hx, hvalue⟩ := List.forall_mem_cons.1 h
    rw [Expr.relabel, Expr.print, Expr.print, hx, value.print_relabel hvalue]

theorem Expr.printEach_relabel (es : List Expr)
    (h : ∀ x ∈ Expr.identifiersList es, (f x).print = x.print) :
    Expr.printEach (Expr.relabelList f es) = Expr.printEach es := by
  match es with
  | [] => rfl
  | e :: es =>
    obtain ⟨he, hes⟩ := List.forall_mem_append.1 h
    rw [Expr.relabelList, Expr.printEach, Expr.printEach, e.print_relabel he,
      Expr.printEach_relabel es hes]

end

theorem printParameters_map {parameters : List Identifier}
    (h : ∀ x ∈ parameters, (f x).print = x.print) :
    printParameters (parameters.map f) = printParameters parameters := by
  rw [printParameters, printParameters, List.map_map]
  congr 3
  exact List.map_congr_left h

mutual

theorem Statement.print_relabel (depth : Nat) (s : Statement)
    (h : ∀ x ∈ s.identifiers, (f x).print = x.print) :
    (s.relabel f).print depth = s.print depth := by
  match s with
  | .expression value =>
    rw [Statement.relabel, Statement.print, Statement.print, value.print_relabel h]
  | .return value =>
    rw [Statement.relabel, Statement.print, Statement.print, value.print_relabel h]
  | .conditional condition consequent none =>
    obtain ⟨hcondition, hconsequent⟩ := List.forall_mem_append.1 h
    rw [Statement.relabel, Statement.print, Statement.print, condition.print_relabel hcondition,
      printBlock_relabel (depth + 1) consequent hconsequent]
  | .conditional condition consequent (some alternative) =>
    obtain ⟨h, halternative⟩ := List.forall_mem_append.1 h
    obtain ⟨hcondition, hconsequent⟩ := List.forall_mem_append.1 h
    rw [Statement.relabel, Statement.print, Statement.print, condition.print_relabel hcondition,
      printBlock_relabel (depth + 1) consequent hconsequent,
      printBlock_relabel (depth + 1) alternative halternative]
  | .declaration d => exact d.print_relabel depth h

theorem Declaration.print_relabel (depth : Nat) (d : Declaration)
    (h : ∀ x ∈ d.identifiers, (f x).print = x.print) :
    (d.relabel f).print depth = d.print depth := by
  match d with
  | .class name body =>
    obtain ⟨hname, hbody⟩ := List.forall_mem_cons.1 h
    rw [Declaration.relabel, Declaration.print, Declaration.print, hname,
      printBlock_relabel (depth + 1) body hbody]
  | .function name parameters body =>
    obtain ⟨hname, h⟩ := List.forall_mem_cons.1 h
    obtain ⟨hparameters, hbody⟩ := List.forall_mem_append.1 h
    rw [Declaration.relabel, Declaration.print, Declaration.print, hname,
      printParameters_map hparameters, printBlock_relabel (depth + 1) body hbody]
  | .method owner name parameters body =>
    obtain ⟨howner, h⟩ := List.forall_mem_cons.1 h
    obtain ⟨hname, h⟩ := List.forall_mem_cons.1 h
    obtain ⟨hparameters, hbody⟩ := List.forall_mem_append.1 h
    rw [Declaration.relabel, Declaration.print, Declaration.print, howner, hname,
      printParameters_map hparameters, printBlock_relabel (depth + 1) body hbody]

theorem printBlock_relabel (depth : Nat) (b : List Statement)
    (h : ∀ x ∈ blockIdentifiers b, (f x).print = x.print) :
    printBlock depth (relabelStatements f b) = printBlock depth b := by
  match b with
  | [] => rfl
  | s :: b =>
    obtain ⟨hs, hb⟩ := List.forall_mem_append.1 h
    rw [relabelStatements, printBlock, printBlock, s.print_relabel depth hs,
      printBlock_relabel depth b hb]

end

end

theorem Keyword.notMem_of_ofText? {word : String} (h : Keyword.ofText? word = none) :
    word ∉ ["if", "else", "return"] := by
  simp [Keyword.ofText?, Keyword.text] at h
  simpa [eq_comm] using h

namespace Token

theorem isName_of_wordKind {c : Char} {text : List Char} {name : String} (hc : isWordStart c)
    (h : wordKind (String.ofList ((c :: text).takeWhile isWordRest)) = .identifier name) :
    isName name := by
  rw [List.takeWhile_cons_of_pos (isWordRest_of_isWordStart hc)] at h
  unfold wordKind at h
  split at h
  next => cases h
  next hnone =>
    cases h
    have hkeyword := Keyword.notMem_of_ofText? hnone
    unfold isName
    rw [String.toList_ofList]
    simp only [Bool.and_eq_true, Bool.not_eq_true', List.contains_eq_mem,
      decide_eq_false_iff_not]
    refine ⟨⟨?_, ?_⟩, hkeyword⟩
    · simpa [isWordStart] using hc
    · rw [List.all_eq_true]
      intro d hd
      simpa [isWordRest] using List.all_eq_true.1 List.all_takeWhile d hd

theorem isName_of_read {c : Char} {text : List Char} {name : String}
    (h : (read c text).value = .identifier name) : isName name := by
  unfold read at h
  split at h
  · cases h
  · split at h
    · simp only [Reading.precededBy, Reading.map, stringKind] at h
      split at h <;> cases h
    · split at h
      · exact absurd h (readNumber_ne_identifier _ _)
      · split at h
        next hc => exact isName_of_wordKind hc h
        next => cases h

theorem isName_of_mem_scan {p : Position} {text : List Char} {t : Token}
    (ht : t ∈ scan p text) {name : String} (h : t.kind = .identifier name) : isName name := by
  have hkind : t.kind ≠ .endOfInput := by
    rw [h]
    nofun
  obtain ⟨c, rest, hread, -⟩ := exists_read_of_mem_scan ht hkind
  rw [hread] at h
  exact isName_of_read h

end Token

theorem Declaration.unresolved_of_parse {ts : List Token} {d : Declaration} {span : Span}
    (h : Declaration.parse ts = .ok (d, span)) : ∀ x ∈ d.identifiers, x.id = none := by
  intro x hx
  obtain ⟨t, -, -, hx⟩ := Declaration.denoted_of_parse h x hx
  rw [hx]

theorem Declaration.writable_of_parse {p : Position} {text : List Char} {d : Declaration}
    {span : Span} (h : Declaration.parse (Token.scan p text) = .ok (d, span))
    (hstrings : ∀ value, .string value ∈ d.subexpressions →
      ∀ c ∈ value.toList, Text.isQuotable c)
    (hnumbers : ∀ value, .number value ∈ d.subexpressions →
      (Token.ofSource value.text).map Token.kind = [.number value, .endOfInput]) :
    Writable d.identifiers d.subexpressions := by
  obtain ⟨_, _, _, _, -, -, -, hdeclaration, -⟩ := Declaration.exists_of_parse h
  refine ⟨Declaration.unresolved_of_parse h, ?_, hdeclaration.assignable, hstrings, hnumbers⟩
  intro x hx
  obtain ⟨t, ht, hkind, -⟩ := Declaration.denoted_of_parse h x hx
  exact Token.isName_of_mem_scan ht hkind

theorem Declaration.exists_print_eq (d : Declaration) (depth : Nat) :
    ∃ word ∈ ["fun", "class"], ∃ inner,
      (d.print depth).toList = '\\' :: (word.toList ++ '{' :: (inner ++ ['}'])) := by
  let lines (body : Block) : List Char :=
    '{' :: '\n' :: ((printBlock (depth + 1) body).toList ++ (indentation depth).toList)
  cases d with
  | «class» name body =>
    refine ⟨"class", by decide, name.print.toList ++ '}' :: lines body, ?_⟩
    simp [lines, Declaration.print, printBraced]
  | function name parameters body =>
    refine ⟨"fun", by decide,
      name.print.toList ++ '}' :: ((printParameters parameters).toList ++ lines body), ?_⟩
    simp [lines, Declaration.print, printBraced]
  | method owner name parameters body =>
    refine ⟨"fun", by decide, owner.print.toList ++ ':' :: ':' :: (name.print.toList ++
      '}' :: ((printParameters parameters).toList ++ lines body)), ?_⟩
    simp [lines, Declaration.print, printBraced]

theorem Declaration.exists_tokens_ends (d : Declaration) :
    ∃ kinds, d.tokens = .symbol .backslash :: kinds ++ [.symbol .rightBrace] := by
  let braced (body : Block) : List TokenKind := .symbol .leftBrace :: blockTokens body
  cases d with
  | «class» name body =>
    refine ⟨.identifier "class" :: (braceTokens [name.token] ++ braced body), ?_⟩
    simp [braced, Declaration.tokens, braceTokens, enclosed]
  | function name parameters body =>
    refine ⟨.identifier "fun" ::
      (braceTokens [name.token] ++ (parameterTokens parameters ++ braced body)), ?_⟩
    simp [braced, Declaration.tokens, braceTokens, enclosed]
  | method owner name parameters body =>
    refine ⟨.identifier "fun" :: (braceTokens [owner.token, .symbol .colonColon, name.token] ++
      (parameterTokens parameters ++ braced body)), ?_⟩
    simp [braced, Declaration.tokens, braceTokens, enclosed]

theorem Declaration.parse_of_reads {t t' : Token} {ts rest : List Token} {d : Declaration}
    (h : Parse.Reads (Parse.declaration
      (Token.endAfter (t :: ts ++ [t'] ++ rest).getLast?) (t :: ts ++ [t'] ++ rest)) d rest) :
    Declaration.parse (t :: ts ++ [t'] ++ rest) = .ok (d, ⟨t.span.start, t'.span.stop⟩) := by
  obtain ⟨hlt, hd⟩ := h
  rw [Declaration.parse, hd]
  simp only [bind, Except.bind]
  rw [List.length_append, Nat.add_sub_cancel, List.take_left, List.getLast?_concat]
  rfl

theorem Declaration.exists_parse_print {d : Declaration}
    (h : Writable d.identifiers d.subexpressions) (p : Position) (after : List Char) :
    ∃ d', Declaration.parse (Token.scan p ((d.print 0).toList ++ after)) =
        .ok (d', ⟨p.offset, (p.after (d.print 0).toList).offset⟩) ∧
      d'.relabel Identifier.forgetSpan = d.relabel Identifier.forgetSpan := by
  obtain ⟨word, -, inner, hprint⟩ := d.exists_print_eq 0
  obtain ⟨kinds, hkinds⟩ := d.exists_tokens_ends
  have htext : (d.print 0).toList = '\\' :: (word.toList ++ '{' :: inner) ++ ['}'] := by
    rw [hprint, List.cons_append, List.append_assoc, List.cons_append]
  have hscans := Declaration.scans_print 0 d h
  rw [htext, hkinds] at hscans
  obtain ⟨ts, hts, hscan⟩ := hscans.exists_scan p
  obtain ⟨t, ts, rfl, ht, hts⟩ := List.map_eq_cons_iff.1 hts
  have hstart : t.span.start = p.offset :=
    congrArg Position.offset (Token.position_of_scan_backslash (hscan after))
  let brace := Token.closingBrace (p.after ('\\' :: (word.toList ++ '{' :: inner)))
  have hparsed : (t :: ts ++ [brace]).map Token.kind = d.tokens := by
    rw [hkinds, List.map_append, List.map_cons, ht, hts]
    rfl
  have hstop : brace.span.stop = (p.after (d.print 0).toList).offset := by
    rw [htext, Position.after_append]
    simp [brace, Token.closingBrace, Token.span]
  obtain ⟨d', hd', heq⟩ := Parse.exists_reads_declaration _ d h _ hparsed
  refine ⟨d', ?_, heq⟩
  rw [← hstop, ← hstart, htext, List.append_assoc, List.singleton_append, hscan,
    List.append_cons]
  exact Declaration.parse_of_reads hd'

end LiterateFun
