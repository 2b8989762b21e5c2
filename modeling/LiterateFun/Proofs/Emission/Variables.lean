import LiterateFun.Proofs.Emission.Mentions
import LiterateFun.Proofs.Emission.Reading
import LiterateFun.Proofs.Lowering.Contents

/-!
This module contains the variables in the lines of scripts. They are read from the text of a line,
and they are those of the statement that the line belongs to.
-/

namespace LiterateFun

namespace Script

def Lexeme.variables : Lexeme → List String
  | .word text => if "FUN_".toList.isPrefixOf text.toList then [text] else []
  | _ => []

def declaredIn (found : List Lexeme) : List String :=
  if found.head? = some (.word "let") then found.flatMap Lexeme.variables else []

/--
The variables that are used by what is read from a line. A `let` and the head of a declaration use
none.
-/
def usedIn (found : List Lexeme) : List String :=
  if found.head? = some (.word "let") then
    []
  else if found.getLast? = some (.mark '\x7b') ∧ found.head? ≠ some (.word "if") then
    []
  else
    found.flatMap Lexeme.variables

def lineDeclared (line : String) : List String :=
  declaredIn (lexemes line.toList)

def lineVariables (line : String) : List String :=
  usedIn (lexemes line.toList)

def Value.variables : Value → List Variable
  | .variable v => [v]
  | _ => []

def Statement.usedVariables : Statement → List Variable
  | .binary _ _ left right => left.variables ++ right.variables
  | .call _ callee arguments => callee.variables ++ arguments.flatMap Value.variables
  | .assign v result => v :: result.variables
  | .unassignable result => result.variables
  | .value result => result.variables
  | .return result => result.variables
  | .conditional _ condition _ _ => condition.variables
  | .declare _ => []
  | .function .. => []
  | .class .. => []

def Statement.declaredVariables : Statement → List Variable
  | .declare v => [v]
  | _ => []

structure IsReading {β : Type} (read : List Lexeme → List β) (part : Statement → List β) :
    Prop where
  line : ∀ s found, s.layouts = [.line found] → read found = part s
  unassignable : ∀ value, part (.unassignable value) = []
  «if» : ∀ setup condition consequent alternative,
    read ([.word "if", .mark '(', condition.lexeme, .mark ')'] ++ [.mark '\x7b']) =
      part (.conditional setup condition consequent alternative)
  «else» : read ([.word "else"] ++ [.mark '\x7b']) = []
  opening : read ([] ++ [.mark '\x7b']) = []
  closing : read [.mark '\x7d'] = []
  signature : ∀ name (parameters : List String),
    read (.word (spell name) :: listLexemes (parameters.map fun x => .word (spell x)) ++
      [.mark '\x7b']) = []
  function : ∀ name (parameters : List String),
    read (.word "function" :: .word (spell name) ::
      listLexemes (parameters.map fun x => .word (spell x)) ++ [.mark '\x7b']) = []
  function_eq : ∀ name parameters body, part (.function name parameters body) = []
  «class» : ∀ name, read ([.word "class", .word (spell name)] ++ [.mark '\x7b']) = []
  class_eq : ∀ name constructor methods, part (.class name constructor methods) = []
  «constructor» : read (.word "constructor" :: listLexemes [] ++ [.mark '\x7b']) = []

section

variable {β : Type} {read : List Lexeme → List β} {part : Statement → List β}

open Layout

namespace IsReading

variable (h : IsReading read part)

include h

theorem braces {head : List Lexeme} (hhead : read (head ++ [.mark '\x7b']) = [])
    (layouts : List Layout) :
    (lexemeLinesOf [.braces head layouts]).flatMap read =
      (lexemeLinesOf layouts).flatMap read := by
  rw [lexemeLinesOf_singleton, lexemeLines, List.cons_append, List.flatMap_cons,
    List.flatMap_append, List.flatMap_singleton, hhead, h.closing, List.nil_append,
    List.append_nil]

theorem condition (setup : List Statement) (condition : Value)
    (consequent : List Statement) (alternative : Option (List Statement)) (layouts : List Layout) :
    (lexemeLinesOf [.braces [.word "if", .mark '(', condition.lexeme, .mark ')'] layouts]).flatMap
        read =
      part (.conditional setup condition consequent alternative) ++
        (lexemeLinesOf layouts).flatMap read := by
  rw [lexemeLinesOf_singleton, lexemeLines, List.cons_append, List.flatMap_cons,
    List.flatMap_append, List.flatMap_singleton, h.closing, List.append_nil,
    h.if setup condition consequent alternative]

theorem simple {s : Statement} {found : List Lexeme} (hlayouts : s.layouts = [.line found])
    (hsequences : s.sequences = []) :
    ((lexemeLinesOf s.layouts).flatMap read).Perm
      (part s ++ s.sequences.flatMap (own part fun _ => [])) := by
  rw [hsequences, List.flatMap_nil, List.append_nil, hlayouts, lexemeLinesOf_singleton, lexemeLines,
    List.flatMap_singleton, h.line s found hlayouts]

end IsReading

mutual

theorem Statement.read_layouts (h : IsReading read part) (s : Statement) :
    ((lexemeLinesOf s.layouts).flatMap read).Perm
      (part s ++ s.sequences.flatMap (own part fun _ => [])) := by
  match s with
  | .binary index op left right => exact h.simple rfl rfl
  | .call index callee arguments => exact h.simple rfl rfl
  | .declare v => exact h.simple rfl rfl
  | .assign v value => exact h.simple rfl rfl
  | .unassignable value =>
    rw [h.unassignable]
    exact .nil
  | .value value => exact h.simple rfl rfl
  | .return value => exact h.simple rfl rfl
  | .conditional setup condition consequent none =>
    have hsetup := read_layoutsOf h setup
    have hconsequent := read_layoutsOf h consequent
    rw [Statement.layouts, h.braces h.opening, lexemeLinesOf_append, List.flatMap_append,
      h.condition setup condition consequent none, Statement.sequences, List.flatMap_append,
      ← sequences, ← contents, ← sequences, ← contents, ← List.append_assoc, ← List.append_assoc]
    exact (List.perm_append_comm.trans (hsetup.append_left _)).append hconsequent
  | .conditional setup condition consequent (some alternative) =>
    have hsetup := read_layoutsOf h setup
    have hconsequent := read_layoutsOf h consequent
    have halternative := read_layoutsOf h alternative
    rw [Statement.layouts, h.braces h.opening, lexemeLinesOf_append, lexemeLinesOf_append,
      List.flatMap_append, List.flatMap_append, h.braces h.else,
      h.condition setup condition consequent (some alternative), Statement.sequences,
      List.flatMap_append, List.flatMap_append, ← sequences, ← contents, ← sequences, ← contents,
      ← sequences, ← contents, ← List.append_assoc, ← List.append_assoc, ← List.append_assoc]
    exact ((List.perm_append_comm.trans (hsetup.append_left _)).append hconsequent).append
      halternative
  | .function name parameters body =>
    rw [Statement.layouts, h.braces (h.function name parameters), h.function_eq,
      Statement.sequences, List.nil_append]
    exact read_layoutsOf h body
  | .class name none methods =>
    rw [Statement.layouts, h.braces (h.class name), h.class_eq, Statement.sequences,
      List.nil_append]
    exact read_methodLayouts h methods
  | .class name (some body) methods =>
    rw [Statement.layouts, h.braces (h.class name), lexemeLinesOf_append, List.flatMap_append,
      h.braces h.constructor, h.class_eq, Statement.sequences, List.nil_append,
      List.flatMap_append]
    exact (read_layoutsOf h body).append (read_methodLayouts h methods)

theorem Method.read_layouts (h : IsReading read part) (m : Method) :
    ((lexemeLinesOf m.layouts).flatMap read).Perm (m.sequences.flatMap (own part fun _ => [])) := by
  match m with
  | .mk name parameters body =>
    rw [Method.layouts, h.braces (h.signature name parameters), Method.sequences]
    exact read_layoutsOf h body

theorem read_layoutsOf (h : IsReading read part) (script : List Statement) :
    ((lexemeLinesOf (layoutsOf script)).flatMap read).Perm
      (contents part (fun _ => []) script) := by
  match script with
  | [] => exact .nil
  | s :: script =>
    have hcons : (contents part (fun _ => []) (s :: script)).Perm
        ((part s ++ s.sequences.flatMap (own part fun _ => [])) ++
          contents part (fun _ => []) script) := by
      simp only [contents, sequences, sequencesIn, List.flatMap_cons, List.flatMap_append, own,
        List.append_nil]
      exact perm_append_append_comm _ _ _ _
    rw [layoutsOf, lexemeLinesOf_append, List.flatMap_append]
    exact ((s.read_layouts h).append (read_layoutsOf h script)).trans hcons.symm

theorem read_methodLayouts (h : IsReading read part) (methods : List Method) :
    ((lexemeLinesOf (methodLayouts methods)).flatMap read).Perm
      ((methodSequences methods).flatMap (own part fun _ => [])) := by
  match methods with
  | [] => exact .nil
  | m :: methods =>
    rw [methodLayouts, lexemeLinesOf_append, List.flatMap_append, methodSequences,
      List.flatMap_append]
    exact (m.read_layouts h).append (read_methodLayouts h methods)

end

end

theorem Lexeme.variables_of_head? {text : String} (h : text.toList.head? ≠ some 'F') :
    (Lexeme.word text).variables = [] := by
  apply if_neg
  rw [Bool.not_eq_true]
  cases htext : text.toList with
  | nil => rfl
  | cons c cs =>
    rw [htext] at h
    have hc : 'F' ≠ c := fun heq => h (by rw [heq]; rfl)
    exact Bool.and_eq_false_imp.2 fun heq => absurd (eq_of_beq heq) hc

theorem Lexeme.variables_spell (name : String) :
    (Lexeme.word (spell name)).variables = [spell name] := by
  apply if_pos
  rw [spell, String.toList_append]
  exact List.isPrefixOf_iff_prefix.2 (List.prefix_append _ _)

theorem Variable.exists_text_eq (v : Variable) : ∃ name, v.text = spell name := by
  cases h : v.id with
  | none => exact ⟨_, text_of_none h⟩
  | some id => exact ⟨_, text_eq_spell h⟩

@[simp] theorem Lexeme.variables_variable (v : Variable) :
    (Lexeme.word v.text).variables = [v.text] := by
  obtain ⟨name, hname⟩ := v.exists_text_eq
  rw [hname, variables_spell]

@[simp] theorem Lexeme.variables_temporary (index : Nat) :
    (Lexeme.word (temporaryText index)).variables = [] :=
  variables_of_head? (by simp [temporaryText])

@[simp] theorem Lexeme.variables_operator (op : Operator) :
    (Lexeme.word op.text).variables = [] := by
  cases op <;> rfl

@[simp] theorem Lexeme.variables_keywords :
    (word "const").variables = [] ∧ (word "let").variables = [] ∧ (word "=").variables = [] ∧
      (word "return").variables = [] ∧ (word "if").variables = [] :=
  ⟨rfl, rfl, rfl, rfl, rfl⟩

@[simp] theorem Lexeme.variables_mark (c : Char) : (Lexeme.mark c).variables = [] :=
  rfl

@[simp] theorem Value.variables_lexeme (value : Value) :
    value.lexeme.variables = value.variables.map Variable.text := by
  cases value with
  | string value => rfl
  | number value =>
    exact Lexeme.variables_of_head? (head?_number value (c := 'F') (by decide) (by decide))
  | «variable» v => exact Lexeme.variables_variable v
  | temporary index => exact Lexeme.variables_temporary index

@[simp] theorem flatMap_variables_listLexemes (arguments : List Value) :
    (listLexemes (arguments.map Value.lexeme)).flatMap Lexeme.variables =
      (arguments.flatMap Value.variables).map Variable.text := by
  have hitems : ((arguments.map Value.lexeme).intersperse (.mark ',')).flatMap Lexeme.variables =
      (arguments.flatMap Value.variables).map Variable.text := by
    induction arguments with
    | nil => rfl
    | cons value arguments ih =>
      cases arguments with
      | nil => simp
      | cons value' arguments => simpa using ih
  simp [listLexemes, hitems]

theorem Value.lexeme_ne_let (value : Value) : value.lexeme ≠ .word "let" := by
  cases value with
  | string value => simp [Value.lexeme]
  | number value =>
    intro heq
    have hhead := head?_number value (c := 'l') (by decide) (by decide)
    rw [Lexeme.word.inj heq] at hhead
    exact hhead rfl
  | «variable» v =>
    obtain ⟨name, hname⟩ := v.exists_text_eq
    simp [Value.lexeme, hname, spell, ← String.toList_inj]
  | temporary index => simp [Value.lexeme, temporaryText, ← String.toList_inj]

theorem Variable.text_ne_let (v : Variable) : v.text ≠ "let" :=
  fun heq => (Value.variable v).lexeme_ne_let (congrArg Lexeme.word heq)

theorem usedIn_eq {found : List Lexeme} (hhead : found.head? ≠ some (.word "let"))
    (hlast : found.getLast? = some (.mark ';')) :
    usedIn found = found.flatMap Lexeme.variables := by
  rw [usedIn, if_neg hhead, if_neg (by simp [hlast])]

theorem declaredIn_eq {l : Lexeme} {found : List Lexeme} (hl : l ≠ .word "let") :
    declaredIn (l :: found) = [] :=
  if_neg (by simpa using hl)

theorem usedIn_head {l : Lexeme} {found : List Lexeme} (hl : l ≠ .word "if") :
    usedIn (l :: found ++ [.mark '\x7b']) = [] := by
  rw [usedIn]
  split
  · rfl
  · exact if_pos ⟨List.getLast?_concat, by simpa using hl⟩

def record {α : Type} (as : List α) : List (List α) :=
  [as].filter fun as => !as.isEmpty

theorem flatMap_record {α β : Type} (f : α → List β) (as : List α) :
    as.flatMap (fun a => record (f a)) = (as.map f).filter fun bs => !bs.isEmpty := by
  induction as with
  | nil => rfl
  | cons a as ih => rw [List.flatMap_cons, ih, record, List.map_cons, ← List.filter_append]; rfl

def Statement.lineRecord : Statement → List (List String)
  | .unassignable _ => []
  | s => record (s.usedVariables.map Variable.text)

theorem usedIn_line {s : Statement} {found : List Lexeme} (h : s.layouts = [.line found]) :
    usedIn found = s.usedVariables.map Variable.text := by
  cases s with
  | binary index op left right =>
    cases h
    rw [usedIn_eq (by simp) rfl]
    simp [Statement.usedVariables]
  | call index callee arguments =>
    cases h
    rw [usedIn_eq (by simp) List.getLast?_concat]
    simp [Statement.usedVariables]
  | declare v =>
    cases h
    rfl
  | assign v value =>
    cases h
    rw [usedIn_eq (by simpa using v.text_ne_let) rfl]
    simp [Statement.usedVariables]
  | unassignable value => cases h
  | value value =>
    cases h
    rw [usedIn_eq (by simpa using value.lexeme_ne_let) rfl]
    simp [Statement.usedVariables]
  | «return» value =>
    cases h
    rw [usedIn_eq (by simp) rfl]
    simp [Statement.usedVariables]
  | conditional setup condition consequent alternative => cases alternative <;> cases h
  | function name parameters body => cases h
  | «class» name constructor methods => cases constructor <;> cases h

theorem declaredIn_line {s : Statement} {found : List Lexeme} (h : s.layouts = [.line found]) :
    declaredIn found = s.declaredVariables.map Variable.text := by
  cases s with
  | binary index op left right =>
    cases h
    exact declaredIn_eq (by simp)
  | call index callee arguments =>
    cases h
    exact declaredIn_eq (by simp)
  | declare v =>
    cases h
    simp [declaredIn, Statement.declaredVariables]
  | assign v value =>
    cases h
    exact declaredIn_eq (by simpa using v.text_ne_let)
  | unassignable value => cases h
  | value value =>
    cases h
    exact declaredIn_eq value.lexeme_ne_let
  | «return» value =>
    cases h
    exact declaredIn_eq (by simp)
  | conditional setup condition consequent alternative => cases alternative <;> cases h
  | function name parameters body => cases h
  | «class» name constructor methods => cases constructor <;> cases h

theorem spell_ne {name text : String} (h : text.toList.head? ≠ some 'F') : spell name ≠ text := by
  rintro rfl
  simp [spell] at h

theorem isReading_lineRecord :
    IsReading (fun found => record (usedIn found)) Statement.lineRecord where
  line s found hs := by
    rw [usedIn_line hs]
    cases s <;> first | rfl | cases hs
  unassignable _ := rfl
  «if» setup condition consequent alternative := by
    simp [usedIn, Statement.lineRecord, Statement.usedVariables]
  «else» := by decide
  opening := by decide
  closing := by decide
  signature name parameters := by
    rw [usedIn_head (by simpa using spell_ne (by decide))]
    rfl
  function name parameters := by
    rw [usedIn_head (by simp)]
    rfl
  function_eq _ _ _ := rfl
  «class» name := by
    rw [usedIn_head (by simp)]
    rfl
  class_eq _ _ _ := rfl
  «constructor» := by decide

theorem isReading_declaredVariables :
    IsReading declaredIn (fun s => s.declaredVariables.map Variable.text) where
  line s found hs := declaredIn_line hs
  unassignable _ := rfl
  «if» setup condition consequent alternative := declaredIn_eq (by simp)
  «else» := by decide
  opening := by decide
  closing := by decide
  signature name parameters := declaredIn_eq (by simpa using spell_ne (by decide))
  function name parameters := declaredIn_eq (by simp)
  function_eq _ _ _ := rfl
  «class» name := declaredIn_eq (by simp)
  class_eq _ _ _ := rfl
  «constructor» := by decide

section

variable {script : List Statement} (h : namesAll IsPlain script)

include h

theorem lineVariables_linesOf :
    (((linesOf script).map lineVariables).filter fun names => !names.isEmpty).Perm
      (contents Statement.lineRecord (fun _ => []) script) := by
  have hread := read_layoutsOf isReading_lineRecord script
  rw [← (reads_layoutsOf script h).map_lexemes, flatMap_record, List.map_map] at hread
  exact hread

theorem lineDeclared_linesOf :
    ((linesOf script).flatMap lineDeclared).Perm
      (contents (fun s => s.declaredVariables.map Variable.text) (fun _ => []) script) := by
  have hread := read_layoutsOf isReading_declaredVariables script
  rw [← (reads_layoutsOf script h).map_lexemes, List.flatMap_map] at hread
  exact hread

end

end Script

end LiterateFun
