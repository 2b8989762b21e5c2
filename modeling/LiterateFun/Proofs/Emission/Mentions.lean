import LiterateFun.Proofs.Emission.Lexemes

/-!
This module contains the names in the lines of expressions: which temporary a line defines, and
which names it uses. Both can be read from the text of the line.
-/

namespace LiterateFun

namespace Script

inductive Line
  | operation (index : Nat) (left : String) (op : Operator) (right : String)
  | call (index : Nat) (callee : String) (arguments : List String)
  | declare (name : String)
  | assign (name value : String)

namespace Line

def text : Line → String
  | .operation index left op right =>
    "const temp" ++ Text.decimal index ++ " = " ++ left ++ " " ++ op.text ++ " " ++ right ++ ";"
  | .call index callee arguments =>
    "const temp" ++ Text.decimal index ++ " = " ++ callee ++ "(" ++ ", ".intercalate arguments
      ++ ");"
  | .declare name => "let " ++ name ++ ";"
  | .assign name value => name ++ " = " ++ value ++ ";"

def defined? : Line → Option Nat
  | .operation index _ _ _ => some index
  | .call index _ _ => some index
  | _ => none

def names : Line → List String
  | .operation _ left _ right => [left, right]
  | .call _ callee arguments => callee :: arguments
  | .declare name => [name]
  | .assign name value => [name, value]

end Line

def Defines (line : String) (index : Nat) : Prop :=
  (lexemes line.toList).take 3 = [.word "const", .word ("temp" ++ Text.decimal index), .word "="]

def mentions (line : String) : List Lexeme :=
  let found := lexemes line.toList
  if found.head? = some (.word "const") then found.drop 2 else found

theorem temporaryText_inj {m n : Nat} : temporaryText m = temporaryText n ↔ m = n := by
  refine ⟨fun h => ?_, congrArg temporaryText⟩
  have hlist := congrArg String.toList h
  simp only [temporaryText, String.toList_append, List.append_cancel_left_eq] at hlist
  exact Text.decimal_injective (String.toList_inj.1 hlist)

theorem ne_temporaryText {text : String} (h : text.toList.head? ≠ some 't') (index : Nat) :
    text ≠ temporaryText index := by
  rintro rfl
  simp [temporaryText] at h

def IsName (text : String) : Prop :=
  ∃ l, IsLexeme text l ∧ l ≠ .word "const" ∧
    ∀ index, l = .word (temporaryText index) ↔ text = temporaryText index

theorem isName_word {text : String} (h : IsPlain text) (hne : text ≠ "") (hconst : text ≠ "const") :
    IsName text := by
  refine ⟨.word text, .word h hne, ?_, fun index => ?_⟩
  · simpa using hconst
  · rw [Lexeme.word.injEq]

theorem isName_temporaryText (index : Nat) : IsName (temporaryText index) := by
  apply isName_word (isPlain_temporaryText index) (temporaryText_ne_empty index)
  exact fun h => ne_temporaryText (by decide) index h.symm

theorem head?_stringLiteral (value : String) : (stringLiteral value).toList.head? = some '"' := by
  simp [stringLiteral]

theorem isName_stringLiteral (value : String) : IsName (stringLiteral value) := by
  refine ⟨.literal value, fun rest _ => lexemes_literal value rest, by simp, fun index => ?_⟩
  have hne : stringLiteral value ≠ temporaryText index := by
    apply ne_temporaryText
    rw [head?_stringLiteral]
    decide
  simp [hne]

theorem head?_number (value : Number) {c : Char} (hdigit : ¬c.isDigit)
    (hc : c ∉ ".-NaNinf".toList) : value.text.toList.head? ≠ some c := by
  intro hhead
  rcases Number.isDigit_or_mem_of_mem_text (List.mem_of_head? hhead) with h | h
  · exact hdigit h
  · exact hc h

theorem isName_number (value : Number) : IsName value.text := by
  apply isName_word (isPlain_number value) value.text_ne_empty
  intro heq
  exact head?_number value (c := 'c') (by decide) (by decide) (by rw [heq]; rfl)

end Script

namespace Identifier

open Script

variable (ids : List Nat) (x : Identifier)

theorem head?_written : (x.written ids).toList.head? = some 'F' := by
  rw [written]
  split <;> simp

theorem written_ne_temporaryText (index : Nat) : x.written ids ≠ temporaryText index :=
  ne_temporaryText (by rw [head?_written]; decide) index

theorem isName_written {x : Identifier} (h : IsPlain x.name) : IsName (x.written ids) := by
  rw [← text_variable]
  refine isName_word (Variable.isPlain_text h) (Variable.text_ne_empty _) fun heq => ?_
  have hhead := x.head?_written ids
  rw [← text_variable, heq] at hhead
  revert hhead
  decide

end Identifier

namespace Script

section

variable {index : Nat} {found : List Lexeme} {texts : List String}

theorem count_name {text : String} {l : Lexeme}
    (h : l = .word (temporaryText index) ↔ text = temporaryText index)
    (hfound : found.count (.word (temporaryText index)) = texts.count (temporaryText index)) :
    (l :: found).count (.word (temporaryText index)) =
      (text :: texts).count (temporaryText index) := by
  rw [List.count_cons, List.count_cons, hfound]
  simp [h]

theorem count_mark (c : Char) :
    (Lexeme.mark c :: found).count (.word (temporaryText index)) =
      found.count (.word (temporaryText index)) :=
  List.count_cons_of_ne (by simp)

theorem count_keyword {text : String} (h : text.toList.head? ≠ some 't') :
    (Lexeme.word text :: found).count (.word (temporaryText index)) =
      found.count (.word (temporaryText index)) :=
  List.count_cons_of_ne fun heq => ne_temporaryText h index (Lexeme.word.inj heq)

theorem count_listLexemes {lexeme : String → Lexeme}
    (h : ∀ text ∈ texts, lexeme text = .word (temporaryText index) ↔ text = temporaryText index)
    (hfound : found.count (.word (temporaryText index)) = 0) :
    (listLexemes (texts.map lexeme) ++ found).count (.word (temporaryText index)) =
      texts.count (temporaryText index) := by
  have hitems : ((texts.map lexeme).intersperse (.mark ',')).count (.word (temporaryText index)) =
      texts.count (temporaryText index) := by
    induction texts with
    | nil => rfl
    | cons text texts ih =>
      rw [List.forall_mem_cons] at h
      cases texts with
      | nil => exact count_name h.1 rfl
      | cons text' texts =>
        rw [List.map_cons, List.map_cons, List.intersperse_cons_cons]
        apply count_name h.1
        rw [count_mark]
        exact ih h.2
  rw [List.count_append, hfound, listLexemes, List.cons_append, count_mark, List.count_append,
    count_mark, hitems]
  rfl

end

theorem reads_definition {line : String} {index' : Nat} {found : List Lexeme}
    (h : lexemes line.toList =
      .word "const" :: .word (temporaryText index') :: .word "=" :: found) (index : Nat) :
    (Defines line index ↔ index' = index) ∧ mentions line = .word "=" :: found := by
  rw [Defines, mentions, h]
  refine ⟨⟨fun htake => ?_, fun heq => by rw [heq]; rfl⟩, rfl⟩
  have hname := (List.cons.inj (List.cons.inj htake).2).1
  exact temporaryText_inj.1 (Lexeme.word.inj hname)

theorem reads_other {line : String} {l : Lexeme} {found : List Lexeme}
    (h : lexemes line.toList = l :: found) (hl : l ≠ .word "const") (index : Nat) :
    ¬Defines line index ∧ mentions line = l :: found := by
  rw [Defines, mentions, h]
  exact ⟨fun htake => hl (List.cons.inj htake).1, if_neg (by simpa using hl)⟩

namespace Line

theorem text_operation (index : Nat) (left : String) (op : Operator) (right : String) :
    (operation index left op right).text =
      "const " ++ temporaryText index ++ " = " ++ left ++ " " ++ op.text ++ " " ++ right ++
        ";" := by
  have hconst : "const temp" = "const " ++ "temp" := rfl
  -- The equations of `text` take long to make.
  change "const temp" ++ Text.decimal index ++ " = " ++ left ++ " " ++ op.text ++ " " ++ right ++
    ";" = _
  rw [hconst]
  simp only [temporaryText, String.append_assoc]

theorem text_call (index : Nat) (callee : String) (arguments : List String) :
    (call index callee arguments).text =
      "const " ++ temporaryText index ++ " = " ++ callee ++ listText arguments ++ ";" := by
  have hconst : "const temp" = "const " ++ "temp" := rfl
  have hend : ");" = ")" ++ ";" := rfl
  change "const temp" ++ Text.decimal index ++ " = " ++ callee ++ "(" ++
    ", ".intercalate arguments ++ ");" = _
  rw [hconst, hend]
  simp only [temporaryText, listText, String.append_assoc]

theorem reads (line : Line) (h : ∀ name ∈ line.names, IsName name) (index : Nat) :
    (Defines line.text index ↔ line.defined? = some index) ∧
      (mentions line.text).count (.word (temporaryText index)) =
        line.names.count (temporaryText index) := by
  choose! lexeme hlexeme hconst htemporary using h
  cases line with
  | operation index' left op right =>
    simp only [names, List.forall_mem_cons] at hlexeme htemporary
    obtain ⟨hdefines, hmentions⟩ :=
      reads_definition (lexemes_binary index' op hlexeme.1 hlexeme.2.1) index
    rw [text_operation]
    refine ⟨hdefines.trans Option.some_inj.symm, ?_⟩
    rw [hmentions, count_keyword (by decide)]
    apply count_name (htemporary.1 index)
    rw [count_keyword (by cases op <;> decide)]
    exact count_name (htemporary.2.1 index) (count_mark _)
  | call index' callee arguments =>
    simp only [names, List.forall_mem_cons] at hlexeme htemporary
    have hlexemes := lexemes_call index' hlexeme.1
      (show ∀ argument ∈ arguments, IsLexeme (id argument) (lexeme argument) from hlexeme.2)
    rw [List.map_id] at hlexemes
    obtain ⟨hdefines, hmentions⟩ := reads_definition hlexemes index
    rw [text_call]
    refine ⟨hdefines.trans Option.some_inj.symm, ?_⟩
    rw [hmentions, count_keyword (by decide)]
    apply count_name (htemporary.1 index)
    exact count_listLexemes (fun argument hmem => htemporary.2 argument hmem index) (count_mark _)
  | declare name =>
    simp only [names, List.forall_mem_cons] at hlexeme htemporary
    have hlexemes : lexemes (declare name).text.toList = _ := lexemes_declare hlexeme.1
    obtain ⟨hdefines, hmentions⟩ := reads_other hlexemes (by decide) index
    refine ⟨iff_of_false hdefines (by simp [defined?]), ?_⟩
    rw [hmentions, count_keyword (by decide)]
    exact count_name (htemporary.1 index) (count_mark _)
  | assign name value =>
    simp only [names, List.forall_mem_cons] at hlexeme hconst htemporary
    have hlexemes : lexemes (assign name value).text.toList = _ :=
      lexemes_assign hlexeme.1 hlexeme.2.1
    obtain ⟨hdefines, hmentions⟩ := reads_other hlexemes hconst.1 index
    refine ⟨iff_of_false hdefines (by simp [defined?]), ?_⟩
    rw [hmentions]
    apply count_name (htemporary.1 index)
    rw [count_keyword (by decide)]
    exact count_name (htemporary.2.1 index) (count_mark _)

end Line

end Script

end LiterateFun
