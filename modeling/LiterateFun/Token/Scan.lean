import LiterateFun.Number.Numeral
import LiterateFun.Token.Basic

/-!
This module contains the division of a source into tokens and the gaps between them.
-/

namespace LiterateFun

structure Reading (α : Type) where
  value : α
  lexeme : List Char
  rest : List Char

namespace Reading

def precededBy (r : Reading α) (lexeme : List Char) : Reading α :=
  { r with lexeme := lexeme ++ r.lexeme }

def map (f : α → β) (r : Reading α) : Reading β :=
  { r with value := f r.value }

def Splits (r : Reading α) (text : List Char) : Prop :=
  r.lexeme ++ r.rest = text

theorem Splits.precededBy {r : Reading α} (h : r.Splits text) (lexeme : List Char) :
    (r.precededBy lexeme).Splits (lexeme ++ text) := by
  simp only [Splits, Reading.precededBy] at *
  simp [h]

theorem Splits.map {r : Reading α} (h : r.Splits text) (f : α → β) : (r.map f).Splits text := h

end Reading

namespace Token

def isBlank (c : Char) : Bool :=
  c = ' ' ∨ c = '\t' ∨ c = '\r' ∨ c = '\n'

/--
Divide a text after the blanks and comments at its start. A comment starts with two slashes and ends
before the next line feed.
-/
def splitGap (text : List Char) : List Char × List Char :=
  go false text
where
  go (inComment : Bool) : List Char → List Char × List Char
    | [] => ([], [])
    | c :: text =>
      if inComment then
        let (gap, rest) := go (c ≠ '\n') text
        (c :: gap, rest)
      else if isBlank c then
        let (gap, rest) := go false text
        (c :: gap, rest)
      else if c = '/' ∧ text.head? = some '/' then
        let (gap, rest) := go true text
        (c :: gap, rest)
      else
        ([], c :: text)

theorem splitGap.go_append (inComment : Bool) (text : List Char) :
    (splitGap.go inComment text).1 ++ (splitGap.go inComment text).2 = text := by
  induction text generalizing inComment with
  | nil => rfl
  | cons c text ih =>
    rw [splitGap.go]
    split
    · simp [ih]
    · split
      · simp [ih]
      · split
        · simp [ih]
        · rfl

theorem splitGap_append (text : List Char) : (splitGap text).1 ++ (splitGap text).2 = text :=
  splitGap.go_append false text

def unescape? (c : Char) : Option Char :=
  if c = 'n' then some '\n'
  else if c = 't' then some '\t'
  else if c = 'r' then some '\r'
  else if c = 'e' then some '\x1b'
  else if c = '\'' ∨ c = '"' ∨ c = '\\' then some c
  else none

/-- Read a string up to its closing quote. An error ends the string at once. -/
def readString (quote : Char) : List Char → Reading (Except LexicalError (List Char))
  | [] => { value := .error .unterminatedString, lexeme := [], rest := [] }
  | c :: text =>
    if c = quote then
      { value := .ok [], lexeme := [c], rest := text }
    else if c = '\\' then
      match text with
      | [] => { value := .error .unterminatedString, lexeme := [c], rest := [] }
      | d :: text =>
        match unescape? d with
        | some e => ((readString quote text).map (·.map (e :: ·))).precededBy [c, d]
        | none => { value := .error (.unexpectedEscape d), lexeme := [c, d], rest := text }
    else
      ((readString quote text).map (·.map (c :: ·))).precededBy [c]

theorem readString_splits (quote : Char) (text : List Char) :
    (readString quote text).Splits text := by
  fun_induction readString quote text with
  | case1 => rfl
  | case2 => rfl
  | case3 => rfl
  | case4 d text e _ _ ih => exact (ih.map _).precededBy _
  | case5 => rfl
  | case6 c text _ _ ih => exact (ih.map _).precededBy _

def readDigits (radix : Nat) (text : List Char) : Reading (List Nat) where
  value := (text.takeWhile (Numeral.isDigit radix)).filterMap (Numeral.digit? radix)
  lexeme := text.takeWhile (Numeral.isDigit radix)
  rest := text.dropWhile (Numeral.isDigit radix)

theorem readDigits_splits (radix : Nat) (text : List Char) :
    (readDigits radix text).Splits text :=
  List.takeWhile_append_dropWhile

/-- Read the point of a numeral and the digits after it, at least one, if they are there. -/
def readFraction (radix : Nat) (text : List Char) : Reading (List Nat) :=
  match text with
  | '.' :: c :: text =>
    if Numeral.isDigit radix c then
      (readDigits radix (c :: text)).precededBy ['.']
    else
      { value := [], lexeme := [], rest := '.' :: c :: text }
  | text => { value := [], lexeme := [], rest := text }

theorem readFraction_splits (radix : Nat) (text : List Char) :
    (readFraction radix text).Splits text := by
  unfold readFraction
  split
  · split
    · exact (readDigits_splits _ _).precededBy ['.']
    · rfl
  · rfl

def readNumeral (radix : Nat) (text : List Char) : Reading Numeral :=
  let whole := readDigits radix text
  let fraction := readFraction radix whole.rest
  (fraction.map fun digits => { radix, whole := whole.value, fraction := digits }).precededBy
    whole.lexeme

theorem readNumeral_splits (radix : Nat) (text : List Char) :
    (readNumeral radix text).Splits text := by
  have h := (readFraction_splits radix (readDigits radix text).rest).precededBy
    (readDigits radix text).lexeme
  rw [readDigits_splits radix text] at h
  exact h

def numberKind (value : Number) : TokenKind :=
  if value.isFinite then .number value else .invalid .numberTooLarge

/--
Read a number. A zero and a letter announce another radix than ten, which must be followed by a
digit of that radix.
-/
def readNumber (text : List Char) : Reading TokenKind :=
  match text with
  | '0' :: mark :: digits =>
    match Numeral.radix? mark with
    | some radix =>
      if digits.head?.any (Numeral.isDigit radix) then
        ((readNumeral radix digits).map (numberKind ·.value)).precededBy ['0', mark]
      else
        { value := .invalid .invalidNumber, lexeme := ['0', mark], rest := digits }
    | none => (readNumeral 10 text).map (numberKind ·.value)
  | text => (readNumeral 10 text).map (numberKind ·.value)

theorem readNumber_splits (text : List Char) : (readNumber text).Splits text := by
  unfold readNumber
  split
  · split
    · split
      · exact ((readNumeral_splits _ _).map _).precededBy _
      · rfl
    · exact (readNumeral_splits _ _).map _
  · exact (readNumeral_splits _ _).map _

def isWordStart (c : Char) : Bool :=
  c.isAlpha ∨ c = '_'

def isWordRest (c : Char) : Bool :=
  c.isAlphanum ∨ c = '_'

def wordKind (word : String) : TokenKind :=
  match Keyword.ofText? word with
  | some keyword => .keyword keyword
  | none => .identifier word

def readWord (text : List Char) : Reading TokenKind where
  value := wordKind (String.ofList (text.takeWhile isWordRest))
  lexeme := text.takeWhile isWordRest
  rest := text.dropWhile isWordRest

theorem readWord_splits (text : List Char) : (readWord text).Splits text :=
  List.takeWhile_append_dropWhile

def stringKind (value : Except LexicalError (List Char)) : TokenKind :=
  match value with
  | .ok value => .string (String.ofList value)
  | .error cause => .invalid cause

def read (c : Char) (text : List Char) : Reading TokenKind :=
  match Symbol.atStart? (c :: text) with
  | some symbol =>
    { value := .symbol symbol, lexeme := symbol.text,
      rest := (c :: text).drop symbol.text.length }
  | none =>
    if c = '"' ∨ c = '\'' then
      ((readString c text).map stringKind).precededBy [c]
    else if c.isDigit then
      readNumber (c :: text)
    else if isWordStart c then
      readWord (c :: text)
    else
      { value := .invalid (.unexpectedCharacter c), lexeme := [c], rest := text }

theorem read_splits (c : Char) (text : List Char) : (read c text).Splits (c :: text) := by
  unfold read
  split
  case h_1 symbol h =>
    have := List.find?_some h
    obtain ⟨rest, hrest⟩ := List.isPrefixOf_iff_prefix.1 this
    simp [Reading.Splits, ← hrest]
  case h_2 =>
    split
    · exact ((readString_splits _ _).map _).precededBy [c]
    · split
      · exact readNumber_splits _
      · split
        · exact readWord_splits _
        · rfl

theorem readNumeral_lexeme_ne_nil {c : Char} (h : c.isDigit) (text : List Char) :
    (readNumeral 10 (c :: text)).lexeme ≠ [] := by
  simp [readNumeral, Reading.precededBy, readDigits, Numeral.isDigit_ten h]

theorem readNumber_lexeme_ne_nil {c : Char} (h : c.isDigit) (text : List Char) :
    (readNumber (c :: text)).lexeme ≠ [] := by
  unfold readNumber
  split
  · split
    · split
      · simp [Reading.precededBy]
      · simp
    · exact readNumeral_lexeme_ne_nil h text
  · exact readNumeral_lexeme_ne_nil h text

theorem read_lexeme_ne_nil (c : Char) (text : List Char) : (read c text).lexeme ≠ [] := by
  unfold read
  split
  · apply Symbol.text_ne_nil
  · split
    · simp [Reading.precededBy]
    · split
      · apply readNumber_lexeme_ne_nil
        assumption
      · split
        next h =>
          have : isWordRest c := by
            simp [isWordStart] at h
            simp [isWordRest, Char.isAlphanum]
            grind
          simp [readWord, this]
        next => simp

theorem read_rest_length_lt (c : Char) (text : List Char) :
    (read c text).rest.length < (c :: text).length := by
  rw [← read_splits c text, List.length_append]
  have := List.length_pos_iff.2 (read_lexeme_ne_nil c text)
  omega

theorem splitGap_rest_length_le (text : List Char) :
    (splitGap text).2.length ≤ text.length := by
  have := congrArg List.length (splitGap_append text)
  rw [List.length_append] at this
  omega

/-- The tokens of a text that starts at a place of a source. The last one ends the input. -/
def scan (p : Position) (text : List Char) : List Token :=
  let p := p.after (splitGap text).1
  match _h : (splitGap text).2 with
  | [] => [{ kind := .endOfInput, lexeme := "", position := p }]
  | c :: rest =>
    let r := read c rest
    { kind := r.value, lexeme := String.ofList r.lexeme, position := p }
      :: scan (p.after r.lexeme) r.rest
termination_by text.length
decreasing_by
  have := read_rest_length_lt c rest
  have := splitGap_rest_length_le text
  rw [_h] at this
  omega

/--
The tokens of a source from a byte offset on, if the offset is one where a character may start.
Their places are those in the whole source.
-/
def scanFrom? (source : String) (offset : Nat) : Option (List Token) :=
  (Position.first.seek? source.toList offset).map fun (p, text) => scan p text

def ofSource (source : String) : List Token :=
  scan .first source.toList

end Token

end LiterateFun
