import LiterateFun.Proofs.Emission.Names
import LiterateFun.Proofs.Emission.StringLiterals
import LiterateFun.Proofs.Naming.Spelling
import LiterateFun.Proofs.Printing.Literals
import LiterateFun.Script.Render

/-!
This module contains the reading of the lines of scripts. A line falls into words, string literals
and marks. Those of a statement show what the statement consists of, whatever its strings contain,
as long as no name has a blank, a quote or a mark in it.
-/

namespace LiterateFun.Script

inductive Lexeme
  /-- A keyword, an operator, a number or a name. -/
  | word (text : String)
  /-- A string literal, by the string that it denotes. -/
  | literal (value : String)
  | mark (c : Char)
deriving DecidableEq, Inhabited, Repr

def isMark (c : Char) : Bool :=
  c ∈ ['(', ')', ',', ';', '\x7b', '\x7d']

def isWordPart (c : Char) : Bool :=
  !(c ∈ [' ', '\n', '"'] || isMark c)

theorem readCharacters_rest_length_lt {text value rest : List Char}
    (h : readCharacters text = some (value, rest)) : rest.length < text.length := by
  fun_induction readCharacters text generalizing value with
  | case1 => cases h
  | case2 =>
    cases h
    simp
  | case3 => cases h
  | case4 text c after hescape _ ih =>
    obtain ⟨p, hp, heq⟩ := Option.map_eq_some_iff.1 h
    cases heq
    have hlt := ih hp
    have hescape := readEscape_rest_length_lt hescape
    simp only [List.length_cons]
    omega
  | case5 => cases h
  | case6 c text _ _ _ ih =>
    obtain ⟨p, hp, heq⟩ := Option.map_eq_some_iff.1 h
    cases heq
    have hlt := ih hp
    simp only [List.length_cons]
    omega

/-- The lexemes of a line. A quote that is not closed stands for itself. -/
def lexemes (text : List Char) : List Lexeme :=
  match text with
  | [] => []
  | c :: text =>
    if c = '"' then
      match _h : readCharacters text with
      | some (value, rest) => .literal (String.ofList value) :: lexemes rest
      | none => .mark c :: lexemes text
    else if isMark c then
      .mark c :: lexemes text
    else if isWordPart c then
      .word (String.ofList (c :: text.takeWhile isWordPart)) :: lexemes (text.dropWhile isWordPart)
    else
      lexemes text
termination_by text.length
decreasing_by
  · have := readCharacters_rest_length_lt _h
    simp only [List.length_cons]
    omega
  · simp
  · simp
  · have := (text.dropWhile_suffix isWordPart).length_le
    simp only [List.length_cons]
    omega
  · simp

def IsPlain (text : String) : Prop :=
  ∀ c ∈ text.toList, isWordPart c

instance (text : String) : Decidable (IsPlain text) :=
  List.decidableBAll _ text.toList

theorem isPlain_append {text text' : String} :
    IsPlain (text ++ text') ↔ IsPlain text ∧ IsPlain text' := by
  rw [IsPlain, String.toList_append, List.forall_mem_append]
  rfl

theorem isWordPart_of_isWordRest {c : Char} (h : Token.isWordRest c) : isWordPart c := by
  by_contra hnot
  simp only [isWordPart, isMark, Bool.not_eq_true, Bool.not_eq_false', Bool.or_eq_true,
    decide_eq_true_eq, List.mem_cons, List.not_mem_nil, or_false] at hnot
  obtain (rfl | rfl | rfl) | rfl | rfl | rfl | rfl | rfl | rfl := hnot <;> revert h <;> decide

theorem isPlain_of_isWordRest {text : String} (h : ∀ c ∈ text.toList, Token.isWordRest c) :
    IsPlain text :=
  fun c hc => isWordPart_of_isWordRest (h c hc)

theorem isPlain_decimal (n : Nat) : IsPlain (Text.decimal n) := by
  apply isPlain_of_isWordRest
  intro c hc
  exact Token.isWordRest_of_isDigit (Text.isDigit_of_mem_decimal hc)

theorem isPlain_number (value : Number) : IsPlain value.text := by
  intro c hc
  rcases Number.mem_text hc with h | rfl | rfl
  · exact isWordPart_of_isWordRest h
  · decide
  · decide

theorem isPlain_spell {name : String} : IsPlain (spell name) ↔ IsPlain name := by
  rw [spell, isPlain_append, and_iff_right (by decide)]

theorem isPlain_temporaryText (index : Nat) : IsPlain (temporaryText index) :=
  isPlain_append.2 ⟨by decide, isPlain_decimal index⟩

theorem isPlain_operator (op : Operator) : IsPlain op.text := by
  cases op <;> decide

theorem Variable.isPlain_text {v : Variable} (h : IsPlain v.name) : IsPlain v.text := by
  rw [Variable.text]
  split
  · rw [isPlain_append, isPlain_append, isPlain_spell]
    exact ⟨⟨h, by decide⟩, isPlain_decimal _⟩
  · exact isPlain_spell.2 h

def EndsWord (rest : List Char) : Prop :=
  ∀ c ∈ rest.head?, ¬isWordPart c

theorem lexemes_nil : lexemes [] = [] := by
  rw [lexemes]

theorem lexemes_blank (rest : List Char) : lexemes (' ' :: rest) = lexemes rest := by
  rw [lexemes, if_neg (by decide), if_neg (by decide), if_neg (by decide)]

theorem lexemes_mark {c : Char} (h : isMark c) (rest : List Char) :
    lexemes (c :: rest) = .mark c :: lexemes rest := by
  have hquote : c ≠ '"' := by
    rintro rfl
    revert h
    decide
  rw [lexemes, if_neg hquote, if_pos h]

theorem lexemes_word {text : String} (h : IsPlain text) (hne : text ≠ "") {rest : List Char}
    (hrest : EndsWord rest) : lexemes (text.toList ++ rest) = .word text :: lexemes rest := by
  obtain ⟨c, cs, hcons⟩ : ∃ c cs, text.toList = c :: cs := by
    apply List.exists_cons_of_ne_nil
    rwa [Ne, String.toList_eq_nil_iff]
  rw [IsPlain, hcons, List.forall_mem_cons] at h
  have hrest : rest.takeWhile isWordPart = [] ∧ rest.dropWhile isWordPart = rest := by
    cases rest with
    | nil => exact ⟨rfl, rfl⟩
    | cons d rest =>
      have hd := hrest d rfl
      exact ⟨List.takeWhile_cons_of_neg hd, List.dropWhile_cons_of_neg hd⟩
  have hpart := h.1
  have hquote : c ≠ '"' := by
    rintro rfl
    revert hpart
    decide
  have hmark : ¬isMark c := by
    intro hmark
    simp [isWordPart, hmark] at hpart
  rw [hcons, List.cons_append, lexemes, if_neg hquote, if_neg hmark, if_pos hpart,
    List.takeWhile_append_of_pos h.2, List.dropWhile_append_of_pos h.2, hrest.1, hrest.2,
    List.append_nil, ← hcons, String.ofList_toList]

theorem lexemes_literal (value : String) (rest : List Char) :
    lexemes ((stringLiteral value).toList ++ rest) = .literal value :: lexemes rest := by
  obtain ⟨body, htext, -, hread⟩ := readLiteral_stringLiteral value
  have hcharacters := hread rest
  rw [htext, List.cons_append, readLiteral, if_pos rfl] at hcharacters
  rw [htext, List.cons_append, lexemes, if_pos rfl]
  split
  next hsome =>
    rw [hcharacters] at hsome
    cases hsome
    rw [String.ofList_toList]
  next hnone =>
    rw [hcharacters] at hnone
    cases hnone

theorem spell_ne_empty (name : String) : spell name ≠ "" := by
  simp [spell]

theorem Variable.text_ne_empty (v : Variable) : v.text ≠ "" := by
  rw [Variable.text]
  split <;> simp [spell]

theorem temporaryText_ne_empty (index : Nat) : temporaryText index ≠ "" := by
  simp [temporaryText]

def IsLexeme (text : String) (l : Lexeme) : Prop :=
  ∀ rest, EndsWord rest → lexemes (text.toList ++ rest) = l :: lexemes rest

namespace IsLexeme

theorem word {text : String} (h : IsPlain text) (hne : text ≠ "") : IsLexeme text (.word text) :=
  fun _ => lexemes_word h hne

theorem spell {name : String} (h : IsPlain name) : IsLexeme (spell name) (.word (spell name)) :=
  .word (isPlain_spell.2 h) (spell_ne_empty name)

theorem «variable» {v : Variable} (h : IsPlain v.name) : IsLexeme v.text (.word v.text) :=
  .word (Variable.isPlain_text h) v.text_ne_empty

theorem temporary (index : Nat) : IsLexeme (temporaryText index) (.word (temporaryText index)) :=
  .word (isPlain_temporaryText index) (temporaryText_ne_empty index)

theorem operator (op : Operator) : IsLexeme op.text (.word op.text) :=
  .word (isPlain_operator op) (by cases op <;> decide)

variable {text : String} {l : Lexeme} (h : IsLexeme text l)

include h

theorem blank (rest : List Char) : lexemes (text.toList ++ ' ' :: rest) = l :: lexemes rest := by
  rw [h, lexemes_blank]
  rintro _ ⟨⟩
  decide

theorem mark {c : Char} (hc : isMark c) (rest : List Char) :
    lexemes (text.toList ++ c :: rest) = l :: .mark c :: lexemes rest := by
  rw [h, lexemes_mark hc]
  rintro _ ⟨⟩
  simp [isWordPart, hc]

end IsLexeme

def listLexemes (items : List Lexeme) : List Lexeme :=
  .mark '(' :: items.intersperse (.mark ',') ++ [.mark ')']

theorem lexemes_listText {α : Type} {items : List α} {text : α → String} {lexeme : α → Lexeme}
    (h : ∀ item ∈ items, IsLexeme (text item) (lexeme item)) (rest : List Char) :
    lexemes ((listText (items.map text)).toList ++ rest) =
      listLexemes (items.map lexeme) ++ lexemes rest := by
  have hitems : lexemes ([',', ' '].intercalate (items.map fun item => (text item).toList) ++
      ')' :: rest) = (items.map lexeme).intersperse (.mark ',') ++ .mark ')' :: lexemes rest := by
    induction items with
    | nil => exact lexemes_mark (by decide) rest
    | cons item items ih =>
      rw [List.forall_mem_cons] at h
      cases items with
      | nil => simpa using h.1.mark (by decide) rest
      | cons item' items =>
        have hcomma := h.1.mark (by decide : isMark ',') (' ' ::
          ([',', ' '].intercalate ((item' :: items).map fun item => (text item).toList) ++
            ')' :: rest))
        rw [lexemes_blank, ih h.2] at hcomma
        simpa [List.intercalate_cons_cons] using hcomma
  have htext : (listText (items.map text)).toList ++ rest =
      '(' :: ([',', ' '].intercalate (items.map fun item => (text item).toList) ++
        ')' :: rest) := by
    simp [listText, String.toList_intercalate, Function.comp_def]
  rw [htext, lexemes_mark (by decide), hitems, listLexemes]
  simp

def Value.lexeme : Value → Lexeme
  | .string value => .literal value
  | .number value => .word value.text
  | .variable v => .word v.text
  | .temporary index => .word (temporaryText index)

theorem Value.isLexeme_text {value : Value} (h : value.NamesAll IsPlain) :
    IsLexeme value.text value.lexeme := by
  cases value with
  | string value => exact fun rest _ => lexemes_literal value rest
  | number value => exact .word (isPlain_number value) value.text_ne_empty
  | «variable» v => exact .variable h
  | temporary index => exact .temporary index

theorem endsWord_listText (items : List String) (rest : List Char) :
    EndsWord ((listText items).toList ++ rest) := by
  have hparenthesis : ((listText items).toList ++ rest).head? = some '(' := by
    simp [listText]
  rw [EndsWord, hparenthesis]
  rintro _ ⟨⟩
  decide

section

variable {left right value name : String} {l r : Lexeme} {parameters : List String}

theorem isLexeme_const : IsLexeme "const" (.word "const") :=
  .word (by decide) (by decide)

theorem isLexeme_equals : IsLexeme "=" (.word "=") :=
  .word (by decide) (by decide)

theorem lexemes_binary (index : Nat) (op : Operator) (hleft : IsLexeme left l)
    (hright : IsLexeme right r) :
    lexemes ("const " ++ temporaryText index ++ " = " ++ left ++ " " ++ op.text ++ " " ++ right ++
        ";").toList =
      [.word "const", .word (temporaryText index), .word "=", l, .word op.text, r,
        .mark ';'] := by
  have htext : ("const " ++ temporaryText index ++ " = " ++ left ++ " " ++ op.text ++ " " ++
      right ++ ";").toList = "const".toList ++ ' ' :: ((temporaryText index).toList ++ ' ' ::
        ("=".toList ++ ' ' :: (left.toList ++ ' ' :: (op.text.toList ++ ' ' ::
          (right.toList ++ [';']))))) := by
    simp
  rw [htext, isLexeme_const.blank, (IsLexeme.temporary index).blank, isLexeme_equals.blank,
    hleft.blank, (IsLexeme.operator op).blank, hright.mark (by decide), lexemes_nil]

theorem lexemes_call {α : Type} {arguments : List α} {text : α → String} {lexeme : α → Lexeme}
    (index : Nat) (hcallee : IsLexeme left l)
    (harguments : ∀ argument ∈ arguments, IsLexeme (text argument) (lexeme argument)) :
    lexemes ("const " ++ temporaryText index ++ " = " ++ left ++ listText (arguments.map text) ++
        ";").toList =
      [.word "const", .word (temporaryText index), .word "=", l] ++
        listLexemes (arguments.map lexeme) ++ [.mark ';'] := by
  have htext : ("const " ++ temporaryText index ++ " = " ++ left ++
      listText (arguments.map text) ++ ";").toList =
        "const".toList ++ ' ' :: ((temporaryText index).toList ++ ' ' :: ("=".toList ++ ' ' ::
          (left.toList ++ ((listText (arguments.map text)).toList ++ [';'])))) := by
    simp
  rw [htext, isLexeme_const.blank, (IsLexeme.temporary index).blank, isLexeme_equals.blank,
    hcallee _ (endsWord_listText _ _), lexemes_listText harguments, lexemes_mark (by decide),
    lexemes_nil]
  rfl

theorem lexemes_declare (hname : IsLexeme name l) :
    lexemes ("let " ++ name ++ ";").toList = [.word "let", l, .mark ';'] := by
  have hlet : IsLexeme "let" (.word "let") := .word (by decide) (by decide)
  have htext : ("let " ++ name ++ ";").toList = "let".toList ++ ' ' :: (name.toList ++ [';']) := by
    simp
  rw [htext, hlet.blank, hname.mark (by decide), lexemes_nil]

theorem lexemes_assign (hname : IsLexeme name l) (hvalue : IsLexeme value r) :
    lexemes (name ++ " = " ++ value ++ ";").toList = [l, .word "=", r, .mark ';'] := by
  have htext : (name ++ " = " ++ value ++ ";").toList =
      name.toList ++ ' ' :: ("=".toList ++ ' ' :: (value.toList ++ [';'])) := by
    simp
  rw [htext, hname.blank, isLexeme_equals.blank, hvalue.mark (by decide), lexemes_nil]

theorem lexemes_value (hvalue : IsLexeme value r) :
    lexemes (value ++ ";").toList = [r, .mark ';'] := by
  have htext : (value ++ ";").toList = value.toList ++ [';'] := by
    simp
  rw [htext, hvalue.mark (by decide), lexemes_nil]

theorem lexemes_return (hvalue : IsLexeme value r) :
    lexemes ("return " ++ value ++ ";").toList = [.word "return", r, .mark ';'] := by
  have hreturn : IsLexeme "return" (.word "return") := .word (by decide) (by decide)
  have htext : ("return " ++ value ++ ";").toList =
      "return".toList ++ ' ' :: (value.toList ++ [';']) := by
    simp
  rw [htext, hreturn.blank, hvalue.mark (by decide), lexemes_nil]

theorem lexemes_if (hvalue : IsLexeme value r) :
    lexemes ("if (" ++ value ++ ") " ++ "\x7b").toList =
      [.word "if", .mark '(', r, .mark ')'] ++ [.mark '\x7b'] := by
  have hif : IsLexeme "if" (.word "if") := .word (by decide) (by decide)
  have htext : ("if (" ++ value ++ ") " ++ "\x7b").toList =
      "if".toList ++ ' ' :: '(' :: (value.toList ++ ')' :: [' ', '\x7b']) := by
    simp
  rw [htext, hif.blank, lexemes_mark (by decide), hvalue.mark (by decide), lexemes_blank,
    lexemes_mark (by decide), lexemes_nil]
  rfl

theorem lexemes_opening : lexemes ("" ++ "\x7b").toList = [] ++ [.mark '\x7b'] := by
  have htext : ("" ++ "\x7b").toList = ['\x7b'] := rfl
  rw [htext, lexemes_mark (by decide), lexemes_nil, List.nil_append]

theorem lexemes_closing : lexemes "\x7d".toList = [.mark '\x7d'] := by
  have htext : "\x7d".toList = ['\x7d'] := rfl
  rw [htext, lexemes_mark (by decide), lexemes_nil]

theorem lexemes_else : lexemes ("else " ++ "\x7b").toList = [.word "else"] ++ [.mark '\x7b'] := by
  have helse : IsLexeme "else" (.word "else") := .word (by decide) (by decide)
  exact (helse.blank ['\x7b']).trans (by rw [lexemes_mark (by decide), lexemes_nil]; rfl)

theorem lexemes_signature (hname : IsPlain name) (hparameters : ∀ x ∈ parameters, IsPlain x) :
    lexemes (spell name ++ listText (parameters.map spell) ++ " " ++ "\x7b").toList =
      .word (spell name) :: listLexemes (parameters.map fun x => .word (spell x)) ++
        [.mark '\x7b'] := by
  have htext : (spell name ++ listText (parameters.map spell) ++ " " ++ "\x7b").toList =
      (spell name).toList ++ ((listText (parameters.map spell)).toList ++ [' ', '\x7b']) := by
    simp
  rw [htext, IsLexeme.spell hname _ (endsWord_listText _ _),
    lexemes_listText fun x hx => IsLexeme.spell (hparameters x hx), lexemes_blank,
    lexemes_mark (by decide), lexemes_nil]
  rfl

theorem lexemes_function (hname : IsPlain name) (hparameters : ∀ x ∈ parameters, IsPlain x) :
    lexemes ("function " ++ spell name ++ listText (parameters.map spell) ++ " " ++
        "\x7b").toList =
      .word "function" :: .word (spell name) ::
        listLexemes (parameters.map fun x => .word (spell x)) ++ [.mark '\x7b'] := by
  have hfunction : IsLexeme "function" (.word "function") := .word (by decide) (by decide)
  have htext : ("function " ++ spell name ++ listText (parameters.map spell) ++ " " ++
      "\x7b").toList = "function".toList ++ ' ' ::
        (spell name ++ listText (parameters.map spell) ++ " " ++ "\x7b").toList := by
    simp
  rw [htext, hfunction.blank, lexemes_signature hname hparameters]
  rfl

theorem lexemes_class (hname : IsPlain name) :
    lexemes ("class " ++ spell name ++ " " ++ "\x7b").toList =
      [.word "class", .word (spell name)] ++ [.mark '\x7b'] := by
  have hclass : IsLexeme "class" (.word "class") := .word (by decide) (by decide)
  have htext : ("class " ++ spell name ++ " " ++ "\x7b").toList =
      "class".toList ++ ' ' :: ((spell name).toList ++ ' ' :: ['\x7b']) := by
    simp
  rw [htext, hclass.blank, (IsLexeme.spell hname).blank, lexemes_mark (by decide), lexemes_nil]
  rfl

theorem lexemes_constructor :
    lexemes ("constructor() " ++ "\x7b").toList =
      .word "constructor" :: listLexemes [] ++ [.mark '\x7b'] := by
  have hconstructor : IsLexeme "constructor" (.word "constructor") :=
    .word (by decide) (by decide)
  have htext : ("constructor() " ++ "\x7b").toList =
      "constructor".toList ++ '(' :: [')', ' ', '\x7b'] := rfl
  rw [htext, hconstructor.mark (by decide), lexemes_mark (by decide), lexemes_blank,
    lexemes_mark (by decide), lexemes_nil]
  rfl

end

end LiterateFun.Script
