import LiterateFun.Compile
import LiterateFun.Proofs.Emission.Lexemes

/-!
This module contains the lines of generated code. The names of a program, its numbers and its
strings have no line breaks in the code, so that its lines are those that were put together.
-/

namespace LiterateFun

def Text.lines (text : String) : List String :=
  (text.toList.splitOn '\n').dropLast.map String.ofList

def IsLine (text : String) : Prop :=
  '\n' ∉ text.toList

instance (text : String) : Decidable (IsLine text) :=
  inferInstanceAs (Decidable ('\n' ∉ text.toList))

theorem Text.splitOn_join {ls : List String} (h : ∀ line ∈ ls, IsLine line) :
    (String.join (ls.map (· ++ "\n"))).toList.splitOn '\n' = ls.map String.toList ++ [[]] := by
  induction ls with
  | nil => rfl
  | cons line ls ih =>
    rw [List.forall_mem_cons] at h
    have hfirst : (String.join ((line :: ls).map (· ++ "\n"))).toList =
        line.toList ++ '\n' :: (String.join (ls.map (· ++ "\n"))).toList := by
      simp [String.toList_join]
    rw [hfirst, List.splitOn_append_cons_self_of_not_mem h.1, ih h.2]
    rfl

theorem Text.lines_join {ls : List String} (h : ∀ line ∈ ls, IsLine line) :
    lines (String.join (ls.map (· ++ "\n"))) = ls := by
  rw [lines, splitOn_join h, List.dropLast_concat, List.map_map]
  exact (List.map_congr_left fun line _ => String.ofList_toList).trans (List.map_id _)

theorem isLine_append {text text' : String} :
    IsLine (text ++ text') ↔ IsLine text ∧ IsLine text' := by
  simp [IsLine]

open Script

theorem isLine_of_isPlain {text : String} (h : IsPlain text) : IsLine text :=
  fun hmem => absurd (h _ hmem) (by decide)

namespace Script

theorem newline_notMem_escapeChar (c : Char) : '\n' ∉ escapeChar c := by
  have hdigit : ∀ n, '\n' ≠ Nat.digitChar (n % 16) := by
    intro n
    have hall : ∀ i < 16, '\n' ≠ Nat.digitChar i := by decide
    exact hall _ (Nat.mod_lt _ (by decide))
  unfold escapeChar
  split_ifs with _ _ hnewline
  all_goals simp [hex4, hdigit]
  exact fun heq => hnewline heq.symm

theorem isLine_stringLiteral (value : String) : IsLine (stringLiteral value) := by
  simp [IsLine, stringLiteral, newline_notMem_escapeChar]

theorem isLine_listText {items : List String} (h : ∀ item ∈ items, IsLine item) :
    IsLine (listText items) := by
  have hitems : '\n' ∉ [',', ' '].intercalate (items.map String.toList) := by
    induction items with
    | nil => simp
    | cons item items ih =>
      rw [List.forall_mem_cons] at h
      cases items with
      | nil => simpa [IsLine] using h.1
      | cons item' items =>
        rw [List.map_cons, List.map_cons, List.intercalate_cons_cons, ← List.map_cons]
        simp only [List.mem_append, not_or]
        exact ⟨⟨h.1, by decide⟩, ih h.2⟩
  simpa [IsLine, listText, String.toList_intercalate] using hitems

theorem isLine_temporaryText (index : Nat) : IsLine (temporaryText index) :=
  isLine_of_isPlain (isPlain_temporaryText index)

theorem isLine_spell {name : String} (h : IsPlain name) : IsLine (spell name) :=
  isLine_of_isPlain (isPlain_spell.2 h)

theorem Variable.isLine_text {v : Variable} (h : IsPlain v.name) : IsLine v.text :=
  isLine_of_isPlain (Variable.isPlain_text h)

theorem Value.isLine_text {value : Value} (h : value.NamesAll IsPlain) : IsLine value.text := by
  cases value with
  | string value => exact isLine_stringLiteral value
  | number value => exact isLine_of_isPlain (isPlain_number value)
  | «variable» v => exact Variable.isLine_text h
  | temporary index => exact isLine_temporaryText index

theorem isLine_listText_map {α : Type} {items : List α} {text : α → String}
    (h : ∀ item ∈ items, IsLine (text item)) : IsLine (listText (items.map text)) :=
  isLine_listText (List.forall_mem_map.2 h)

theorem isLine_parameters {parameters : List String} (h : ∀ x ∈ parameters, IsPlain x) :
    IsLine (listText (parameters.map spell)) :=
  isLine_listText_map fun x hx => isLine_spell (h x hx)

theorem isLine_bracedLines {head : String} {lines : List String} (hhead : IsLine head)
    (hlines : ∀ line ∈ lines, IsLine line) : ∀ line ∈ bracedLines head lines, IsLine line := by
  simp only [bracedLines, List.cons_append, List.forall_mem_cons, List.forall_mem_append,
    isLine_append]
  exact ⟨⟨hhead, by decide⟩, hlines, by decide, List.forall_mem_nil _⟩

theorem isLine_if {condition : Value} (h : condition.NamesAll IsPlain) :
    IsLine ("if (" ++ condition.text ++ ") ") := by
  simp only [isLine_append, Value.isLine_text h]
  decide

theorem isLine_class {name : String} (h : IsPlain name) :
    IsLine ("class " ++ spell name ++ " ") := by
  simp only [isLine_append, isLine_spell h]
  decide

mutual

theorem Statement.isLine_lines (s : Statement) (h : s.NamesAll IsPlain) :
    ∀ line ∈ s.lines, IsLine line := by
  match s with
  | .binary index op left right =>
    have hop : IsLine op.text := isLine_of_isPlain (isPlain_operator op)
    rw [Statement.lines, List.forall_mem_singleton]
    simp only [isLine_append, isLine_temporaryText, Value.isLine_text h.1, Value.isLine_text h.2,
      hop]
    decide
  | .call index callee arguments =>
    have harguments : IsLine (listText (arguments.map Value.text)) :=
      isLine_listText_map fun value hvalue => Value.isLine_text (h.2 value hvalue)
    rw [Statement.lines, List.forall_mem_singleton]
    simp only [isLine_append, isLine_temporaryText, Value.isLine_text h.1, harguments]
    decide
  | .declare v =>
    rw [Statement.lines, List.forall_mem_singleton]
    simp only [isLine_append, Variable.isLine_text h]
    decide
  | .assign v value =>
    rw [Statement.lines, List.forall_mem_singleton]
    simp only [isLine_append, Variable.isLine_text h.1, Value.isLine_text h.2]
    decide
  | .unassignable _ => exact List.forall_mem_nil _
  | .value value =>
    rw [Statement.lines, List.forall_mem_singleton, isLine_append]
    exact ⟨Value.isLine_text h, by decide⟩
  | .return value =>
    rw [Statement.lines, List.forall_mem_singleton]
    simp only [isLine_append, Value.isLine_text h]
    decide
  | .conditional setup condition consequent none =>
    obtain ⟨hsetup, hcondition, hconsequent⟩ := h
    apply isLine_bracedLines (by decide)
    rw [List.forall_mem_append]
    exact ⟨isLine_linesOf setup hsetup,
      isLine_bracedLines (isLine_if hcondition) (isLine_linesOf consequent hconsequent)⟩
  | .conditional setup condition consequent (some alternative) =>
    obtain ⟨hsetup, hcondition, hconsequent, halternative⟩ := h
    apply isLine_bracedLines (by decide)
    rw [List.forall_mem_append, List.forall_mem_append]
    exact ⟨⟨isLine_linesOf setup hsetup,
      isLine_bracedLines (isLine_if hcondition) (isLine_linesOf consequent hconsequent)⟩,
      isLine_bracedLines (by decide) (isLine_linesOf alternative halternative)⟩
  | .function name parameters body =>
    obtain ⟨hname, hparameters, hbody⟩ := h
    refine isLine_bracedLines ?_ (isLine_linesOf body hbody)
    simp only [isLine_append, isLine_spell hname, isLine_parameters hparameters]
    decide
  | .class name none methods =>
    exact isLine_bracedLines (isLine_class h.1) (isLine_methodLines methods h.2)
  | .class name (some body) methods =>
    obtain ⟨hname, hbody, hmethods⟩ := h
    apply isLine_bracedLines (isLine_class hname)
    rw [List.forall_mem_append]
    exact ⟨isLine_bracedLines (by decide) (isLine_linesOf body hbody),
      isLine_methodLines methods hmethods⟩

theorem Method.isLine_lines (m : Method) (h : m.NamesAll IsPlain) :
    ∀ line ∈ m.lines, IsLine line := by
  match m with
  | .mk name parameters body =>
    obtain ⟨hname, hparameters, hbody⟩ := h
    refine isLine_bracedLines ?_ (isLine_linesOf body hbody)
    simp only [isLine_append, isLine_spell hname, isLine_parameters hparameters]
    decide

theorem isLine_linesOf (script : List Statement) (h : namesAll IsPlain script) :
    ∀ line ∈ linesOf script, IsLine line := by
  match script with
  | [] => exact List.forall_mem_nil _
  | s :: script => exact List.forall_mem_append.2 ⟨s.isLine_lines h.1, isLine_linesOf script h.2⟩

theorem isLine_methodLines (methods : List Method) (h : methodNamesAll IsPlain methods) :
    ∀ line ∈ methodLines methods, IsLine line := by
  match methods with
  | [] => exact List.forall_mem_nil _
  | m :: methods =>
    exact List.forall_mem_append.2 ⟨m.isLine_lines h.1, isLine_methodLines methods h.2⟩

end

end Script

theorem Prelude.isLine_lines : ∀ line ∈ lines, IsLine line := by
  decide +kernel

theorem Generator.lines_code {g : Generator} (h : namesAll IsPlain g.script.1) :
    Text.lines g.code = Prelude.lines ++ linesOf g.script.1 := by
  have hjoin : g.code = String.join ((Prelude.lines ++ linesOf g.script.1).map (· ++ "\n")) := by
    rw [code, Prelude.script, Script.text, List.map_append, String.join_append]
  rw [hjoin, Text.lines_join]
  exact List.forall_mem_append.2 ⟨Prelude.isLine_lines, isLine_linesOf _ h⟩

end LiterateFun
