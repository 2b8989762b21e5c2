/-!
This module contains places in a source text: byte offsets together with the line and the column
that are shown to a reader, and half-open ranges of byte offsets.
-/

namespace LiterateFun

/-- A half-open range of byte offsets into a source text. -/
structure Span where
  start : Nat := 0
  stop : Nat := 0
deriving DecidableEq, Repr, Inhabited

/--
A place in a source text. Lines and columns count from one, a column counts characters, and only a
line feed ends a line.
-/
structure Position where
  offset : Nat
  line : Nat
  column : Nat
deriving DecidableEq, Repr, Inhabited

namespace Text

def byteSize (text : List Char) : Nat :=
  text.foldr (fun c size => c.utf8Size + size) 0

@[simp]
theorem byteSize_nil : byteSize [] = 0 := rfl

@[simp]
theorem byteSize_cons (c : Char) (text : List Char) :
    byteSize (c :: text) = c.utf8Size + byteSize text := rfl

@[simp]
theorem byteSize_append (before after : List Char) :
    byteSize (before ++ after) = byteSize before + byteSize after := by
  induction before with
  | nil => simp
  | cons c before ih => simp [ih, Nat.add_assoc]

end Text

namespace Position

def first : Position where
  offset := 0
  line := 1
  column := 1

def next (p : Position) (c : Char) : Position where
  offset := p.offset + c.utf8Size
  line := if c = '\n' then p.line + 1 else p.line
  column := if c = '\n' then 1 else p.column + 1

def after (p : Position) (text : List Char) : Position :=
  text.foldl next p

@[simp]
theorem after_nil (p : Position) : p.after [] = p := rfl

@[simp]
theorem after_cons (p : Position) (c : Char) (text : List Char) :
    p.after (c :: text) = (p.next c).after text := rfl

theorem after_append (p : Position) (before after : List Char) :
    p.after (before ++ after) = (p.after before).after after := by
  simp [Position.after]

@[simp]
theorem offset_next (p : Position) (c : Char) : (p.next c).offset = p.offset + c.utf8Size := rfl

@[simp]
theorem offset_after (p : Position) (text : List Char) :
    (p.after text).offset = p.offset + Text.byteSize text := by
  induction text generalizing p with
  | nil => simp
  | cons c text ih => simp [ih, Nat.add_assoc]

/--
Go on to a byte offset in a text that starts at a place, if the offset is neither past the end of
the text nor inside of one of its characters. The result also has the text from there on.
-/
def seek? (p : Position) (text : List Char) (offset : Nat) : Option (Position × List Char) :=
  if p.offset = offset then
    some (p, text)
  else
    match text with
    | [] => none
    | c :: text => if offset < p.offset then none else seek? (p.next c) text offset

theorem seek?_eq_some_iff {p q : Position} {text rest : List Char} {offset : Nat} :
    p.seek? text offset = some (q, rest) ↔
      ∃ before, before ++ rest = text ∧ q = p.after before ∧ q.offset = offset := by
  induction text generalizing p with
  | nil =>
    rw [seek?]
    constructor
    · intro h
      split at h
      · cases h
        exact ⟨[], by simp_all⟩
      · contradiction
    · rintro ⟨before, happend, rfl, rfl⟩
      simp only [List.append_eq_nil_iff] at happend
      simp [happend]
  | cons c text ih =>
    rw [seek?]
    constructor
    · intro h
      split at h
      · cases h
        exact ⟨[], by simp_all⟩
      · split at h
        · contradiction
        · obtain ⟨before, rfl, rfl, rfl⟩ := ih.1 h
          exact ⟨c :: before, by simp⟩
    · rintro ⟨before, happend, rfl, rfl⟩
      cases before with
      | nil => simp_all
      | cons d before =>
        simp only [List.cons_append, List.cons.injEq] at happend
        obtain ⟨rfl, rfl⟩ := happend
        have := d.utf8Size_pos
        rw [if_neg (by simp; omega), if_neg (by simp; omega)]
        exact ih.2 ⟨before, by simp⟩

def ofOffset? (source : String) (offset : Nat) : Option Position :=
  (first.seek? source.toList offset).map Prod.fst

/--
The place that is shown for a byte offset in a source. Every offset past the end of the source
stands for its end.
-/
def shown? (source : String) (offset : Nat) : Option Position :=
  ofOffset? source (min offset (Text.byteSize source.toList))

end Position

end LiterateFun
