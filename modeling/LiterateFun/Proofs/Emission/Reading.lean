import LiterateFun.Proofs.Emission.Lexemes
import LiterateFun.Proofs.Emission.Newlines

/-!
This module contains the layout of scripts: which lines stand in which braces, lexeme by lexeme. It
is read from the lines of a script alone, and it is the one that the statements of the script have.
-/

namespace LiterateFun

namespace Script

inductive Layout
  | line (lexemes : List Lexeme)
  | braces (head : List Lexeme) (inner : List Layout)

namespace Layout

/--
Read one more line, where the lines after it are known. They are given by what stands in the braces
that are open after the line, from the innermost ones on.
-/
def readLine (line : String) (layouts : List (List Layout)) : List (List Layout) :=
  let found := lexemes line.toList
  let inner := layouts.headD []
  let around := layouts.tail
  -- The lines are read from the last one on, so that a closing brace starts the lines in braces.
  if found = [.mark '\x7d'] then
    [] :: inner :: around
  else if found.getLast? = some (.mark '\x7b') then
    (.braces found.dropLast inner :: around.headD []) :: around.tail
  else
    (.line found :: inner) :: around

def ofLines (lines : List String) : List Layout :=
  (lines.foldr readLine [[]]).headD []

mutual

def lexemeLines : Layout → List (List Lexeme)
  | .line found => [found]
  | .braces head inner => (head ++ [.mark '\x7b']) :: lexemeLinesOf inner ++ [[.mark '\x7d']]

def lexemeLinesOf : List Layout → List (List Lexeme)
  | [] => []
  | layout :: layouts => layout.lexemeLines ++ lexemeLinesOf layouts

end

theorem lexemeLinesOf_append (layouts layouts' : List Layout) :
    lexemeLinesOf (layouts ++ layouts') = lexemeLinesOf layouts ++ lexemeLinesOf layouts' := by
  induction layouts with
  | nil => rfl
  | cons layout layouts ih =>
    rw [List.cons_append, lexemeLinesOf, lexemeLinesOf, ih, List.append_assoc]

theorem lexemeLinesOf_singleton (layout : Layout) :
    lexemeLinesOf [layout] = layout.lexemeLines := by
  rw [lexemeLinesOf, lexemeLinesOf, List.append_nil]

structure Reads (lines : List String) (layouts : List Layout) : Prop where
  foldr : ∀ inner around, lines.foldr readLine (inner :: around) = (layouts ++ inner) :: around
  map_lexemes : lines.map (fun line => lexemes line.toList) = lexemeLinesOf layouts

theorem reads_nil : Reads [] [] :=
  ⟨fun _ _ => rfl, rfl⟩

theorem Reads.append {lines lines' : List String} {layouts layouts' : List Layout}
    (h : Reads lines layouts) (h' : Reads lines' layouts') :
    Reads (lines ++ lines') (layouts ++ layouts') := by
  constructor
  · intro inner around
    rw [List.foldr_append, h'.foldr, h.foldr, List.append_assoc]
  · rw [List.map_append, h.map_lexemes, h'.map_lexemes, lexemeLinesOf_append]

theorem reads_line {line : String} {found : List Lexeme} (h : lexemes line.toList = found)
    (hlast : found.getLast? = some (.mark ';')) : Reads [line] [.line found] := by
  constructor
  · intro inner around
    have hclose : found ≠ [.mark '\x7d'] := by
      rintro rfl
      simp at hlast
    have hopen : found.getLast? ≠ some (.mark '\x7b') := by
      simp [hlast]
    rw [List.foldr_cons, List.foldr_nil, readLine, h, if_neg hclose, if_neg hopen]
    rfl
  · rw [List.map_singleton, h, lexemeLinesOf_singleton, lexemeLines]

theorem Reads.braces {head : String} {found : List Lexeme} {lines : List String}
    {layouts : List Layout} (h : Reads lines layouts)
    (hhead : lexemes (head ++ "\x7b").toList = found ++ [.mark '\x7b']) :
    Reads (bracedLines head lines) [.braces found layouts] := by
  constructor
  · intro inner around
    have hclose : readLine "\x7d" (inner :: around) = [] :: inner :: around := by
      rw [readLine, lexemes_closing, if_pos rfl]
      rfl
    have hnot : found ++ [Lexeme.mark '\x7b'] ≠ [.mark '\x7d'] := by
      intro heq
      have hlast := congrArg List.getLast? heq
      simp at hlast
    rw [bracedLines, List.cons_append, List.foldr_cons, List.foldr_append, List.foldr_cons,
      List.foldr_nil, hclose, h.foldr, readLine, hhead, if_neg hnot, if_pos (by simp)]
    simp
  · rw [bracedLines, List.cons_append, List.map_cons, List.map_append, List.map_singleton, hhead,
      h.map_lexemes, lexemes_closing, lexemeLinesOf_singleton, lexemeLines, List.cons_append]

theorem Reads.ofLines_eq {lines : List String} {layouts : List Layout} (h : Reads lines layouts) :
    ofLines lines = layouts := by
  rw [ofLines, h.foldr]
  exact List.append_nil layouts

end Layout

mutual

def Statement.layouts : Statement → List Layout
  | .binary index op left right =>
    [.line [.word "const", .word (temporaryText index), .word "=", left.lexeme, .word op.text,
      right.lexeme, .mark ';']]
  | .call index callee arguments =>
    [.line ([.word "const", .word (temporaryText index), .word "=", callee.lexeme] ++
      listLexemes (arguments.map Value.lexeme) ++ [.mark ';'])]
  | .declare v => [.line [.word "let", .word v.text, .mark ';']]
  | .assign v value => [.line [.word v.text, .word "=", value.lexeme, .mark ';']]
  | .unassignable _ => []
  | .value value => [.line [value.lexeme, .mark ';']]
  | .return value => [.line [.word "return", value.lexeme, .mark ';']]
  | .conditional setup condition consequent none =>
    [.braces [] (layoutsOf setup ++
      [.braces [.word "if", .mark '(', condition.lexeme, .mark ')'] (layoutsOf consequent)])]
  | .conditional setup condition consequent (some alternative) =>
    [.braces [] (layoutsOf setup ++
      [.braces [.word "if", .mark '(', condition.lexeme, .mark ')'] (layoutsOf consequent)] ++
      [.braces [.word "else"] (layoutsOf alternative)])]
  | .function name parameters body =>
    [.braces (.word "function" :: .word (spell name) ::
      listLexemes (parameters.map fun x => .word (spell x))) (layoutsOf body)]
  | .class name none methods =>
    [.braces [.word "class", .word (spell name)] (methodLayouts methods)]
  | .class name (some body) methods =>
    [.braces [.word "class", .word (spell name)]
      ([.braces (.word "constructor" :: listLexemes []) (layoutsOf body)] ++
        methodLayouts methods)]

def Method.layouts : Method → List Layout
  | .mk name parameters body =>
    [.braces (.word (spell name) :: listLexemes (parameters.map fun x => .word (spell x)))
      (layoutsOf body)]

def layoutsOf : List Statement → List Layout
  | [] => []
  | s :: script => s.layouts ++ layoutsOf script

def methodLayouts : List Method → List Layout
  | [] => []
  | m :: methods => m.layouts ++ methodLayouts methods

end

theorem layoutsOf_append (script script' : List Statement) :
    layoutsOf (script ++ script') = layoutsOf script ++ layoutsOf script' := by
  induction script with
  | nil => rfl
  | cons s script ih => rw [List.cons_append, layoutsOf, layoutsOf, ih, List.append_assoc]

open Layout

mutual

theorem Statement.reads_layouts (s : Statement) (h : s.NamesAll IsPlain) :
    Reads s.lines s.layouts := by
  match s with
  | .binary index op left right =>
    have hleft := left.isLexeme_text h.1
    exact reads_line (lexemes_binary index op hleft (right.isLexeme_text h.2)) rfl
  | .call index callee arguments =>
    exact reads_line (lexemes_call index (callee.isLexeme_text h.1)
      fun argument hmem => argument.isLexeme_text (h.2 argument hmem)) List.getLast?_concat
  | .declare v => exact reads_line (lexemes_declare (.variable h)) rfl
  | .assign v value =>
    exact reads_line (lexemes_assign (.variable h.1) (value.isLexeme_text h.2)) rfl
  | .unassignable _ => exact reads_nil
  | .value value => exact reads_line (lexemes_value (value.isLexeme_text h)) rfl
  | .return value => exact reads_line (lexemes_return (value.isLexeme_text h)) rfl
  | .conditional setup condition consequent none =>
    obtain ⟨hsetup, hcondition, hconsequent⟩ := h
    have hif := lexemes_if (condition.isLexeme_text hcondition)
    rw [Statement.lines, Statement.layouts]
    apply Reads.braces _ lexemes_opening
    exact (reads_layoutsOf setup hsetup).append
      ((reads_layoutsOf consequent hconsequent).braces hif)
  | .conditional setup condition consequent (some alternative) =>
    obtain ⟨hsetup, hcondition, hconsequent, halternative⟩ := h
    have hif := lexemes_if (condition.isLexeme_text hcondition)
    rw [Statement.lines, Statement.layouts]
    apply Reads.braces _ lexemes_opening
    exact ((reads_layoutsOf setup hsetup).append
      ((reads_layoutsOf consequent hconsequent).braces hif)).append
        ((reads_layoutsOf alternative halternative).braces lexemes_else)
  | .function name parameters body =>
    obtain ⟨hname, hparameters, hbody⟩ := h
    exact (reads_layoutsOf body hbody).braces (lexemes_function hname hparameters)
  | .class name none methods =>
    exact (reads_methodLayouts methods h.2).braces (lexemes_class h.1)
  | .class name (some body) methods =>
    obtain ⟨hname, hbody, hmethods⟩ := h
    exact (((reads_layoutsOf body hbody).braces lexemes_constructor).append
      (reads_methodLayouts methods hmethods)).braces (lexemes_class hname)

theorem Method.reads_layouts (m : Method) (h : m.NamesAll IsPlain) : Reads m.lines m.layouts := by
  match m with
  | .mk name parameters body =>
    obtain ⟨hname, hparameters, hbody⟩ := h
    exact (reads_layoutsOf body hbody).braces (lexemes_signature hname hparameters)

theorem reads_layoutsOf (script : List Statement) (h : namesAll IsPlain script) :
    Reads (linesOf script) (layoutsOf script) := by
  match script with
  | [] => exact reads_nil
  | s :: script => exact (s.reads_layouts h.1).append (reads_layoutsOf script h.2)

theorem reads_methodLayouts (methods : List Method) (h : methodNamesAll IsPlain methods) :
    Reads (methodLines methods) (methodLayouts methods) := by
  match methods with
  | [] => exact reads_nil
  | m :: methods => exact (m.reads_layouts h.1).append (reads_methodLayouts methods h.2)

end

/-- A text has the lines of a script after some others, and these are read as its statements. -/
structure Shows (front : List String) (text : String) (script : List Statement) : Prop where
  lines : Text.lines text = front ++ linesOf script
  layouts : ofLines ((Text.lines text).drop front.length) = layoutsOf script

theorem shows_of_lines_eq {front : List String} {text : String} {script : List Statement}
    (h : Text.lines text = front ++ linesOf script) (hplain : namesAll IsPlain script) :
    Shows front text script := by
  refine ⟨h, ?_⟩
  rw [h, List.drop_left]
  exact (reads_layoutsOf script hplain).ofLines_eq

theorem shows_text {script : List Statement} (h : namesAll IsPlain script) :
    Shows [] (text script) script :=
  shows_of_lines_eq (Text.lines_join (isLine_linesOf script h)) h

end Script

open Script in
theorem Generator.shows_code {g : Generator} (h : namesAll IsPlain g.script.1) :
    Shows Prelude.lines g.code g.script.1 :=
  shows_of_lines_eq (lines_code h) h

end LiterateFun
