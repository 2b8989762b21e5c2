import LiterateFun.Proofs.Documents.Reading
import LiterateFun.Proofs.Printing.Parsed
import Mathlib

-- The whole library: `cbv` unfolds library functions by the equations that stand in it.

/-!
This module contains the theorem that a printed document is read as the same document again. Text
and references are printed as they were, and a declaration is written anew but ends where it is
read up to, so that every part is found again at its new place.
-/

namespace LiterateFun

def Part.forgetSpans : Part → Part
  | .text s => .text s
  | .declaration d _ => .declaration (d.relabel Identifier.forgetSpan) {}
  | .reference direction target => .reference direction target.forgetSpan

theorem Part.print_reference (direction : Direction) (name : List Char) (span : Span) :
    (Part.reference direction { name := String.ofList name, span }).print.toList =
      direction.marker :: name := by
  simp [Part.print]

namespace Document

def forgetSpans (doc : Document) : Document where
  parts := doc.parts.map Part.forgetSpans

namespace Remainder

def print (r : Remainder) : List Char :=
  r.text ++ r.parts.flatMap fun part => part.print.toList

theorem print_afterText (r : Remainder) (text : List Char) :
    (r.afterText text).print = text ++ r.print :=
  List.append_assoc ..

theorem flatMap_toParts (r : Remainder) :
    (r.toParts.flatMap fun part => part.print.toList) = r.print := by
  unfold toParts print
  split
  next hnil => rw [hnil, List.nil_append]
  next => rw [List.flatMap_cons, Part.print, String.toList_ofList]

theorem print_afterPart (r : Remainder) (part : Part) :
    (r.afterPart part).print = part.print.toList ++ r.print := by
  rw [← flatMap_toParts r]
  rfl

theorem toList_print (r : Remainder) :
    (Document.print { parts := r.toParts }).toList = r.print := by
  rw [← flatMap_toParts, Document.print, String.toList_join, List.flatMap_map]

theorem forall_mem_toParts {r : Remainder} {p : Part → Prop} (htext : ∀ s, p (.text s))
    (h : ∀ part ∈ r.parts, p part) : ∀ part ∈ r.toParts, p part := by
  intro part hpart
  rcases mem_toParts hpart with hpart | ⟨-, rfl⟩
  · exact h part hpart
  · exact htext _

theorem map_forgetSpans_toParts {r r' : Remainder} (htext : r'.text = r.text)
    (hparts : r'.parts.map Part.forgetSpans = r.parts.map Part.forgetSpans) :
    r'.toParts.map Part.forgetSpans = r.toParts.map Part.forgetSpans := by
  unfold toParts
  rw [htext]
  split
  · exact hparts
  · rw [List.map_cons, List.map_cons, hparts]

end Remainder

theorem splitGroup_of_closed (depth : Nat) (text : List Char)
    (h : (splitGroup depth text).2 ≠ []) (other : List Char) :
    splitGroup depth ((splitGroup depth text).1 ++ other) = ((splitGroup depth text).1, other) := by
  fun_induction splitGroup depth text
  case case1 => exact absurd rfl h
  case case2 => rfl
  case case3 depth text group rest heq ih =>
    rw [heq] at ih
    rw [List.cons_append, splitGroup.eq_def]
    simp [ih h]
  case case4 depth c text hc group rest heq ih =>
    rw [heq] at ih
    rw [List.cons_append, splitGroup.eq_def]
    simp [hc, ih h]

section

variable {before taken text chunk rest : List Char} {part : Part} {r : Remainder}

theorem ReadsAs.head?_print (h : ReadsAs before text r) : r.print.head? = text.head? := by
  cases h with
  | nil => rfl
  | text hchunk _ =>
    rw [Remainder.print_afterText]
    cases hchunk <;> rfl
  | part hpart _ =>
    rw [Remainder.print_afterPart]
    cases hpart with
    | @declaration _ _ d =>
      obtain ⟨word, -, inner, hprint⟩ := d.exists_print_eq 0
      rw [Part.print, hprint]
      rfl
    | reference =>
      rw [Part.print_reference]
      rfl

theorem ReadsAs.isPrefixOf_print (word : List Char) (hword : word.all Token.isWordRest)
    (h : ReadsAs before text r) :
    (word ++ ['{']).isPrefixOf r.print = (word ++ ['{']).isPrefixOf text := by
  induction word generalizing before text r with
  | nil =>
    have hhead := h.head?_print
    cases text <;> cases hprint : r.print <;> simp_all [List.isPrefixOf]
  | cons c word ih =>
    rw [List.all_cons, Bool.and_eq_true] at hword
    -- A word character is taken as text of its own, so that it is there in both texts.
    have hne {d : Char} (hd : ¬Token.isWordRest d) (text text' : List Char) :
        (c :: word ++ ['{']).isPrefixOf (d :: text) =
          (c :: word ++ ['{']).isPrefixOf (d :: text') := by
      have hcd : c ≠ d := by
        rintro rfl
        exact hd hword.1
      simp [List.isPrefixOf, beq_false_of_ne hcd]
    cases h with
    | nil => rfl
    | text hchunk h =>
      rw [Remainder.print_afterText]
      cases hchunk with
      | pair => exact hne (by decide) _ _
      | backslash => exact hne (by decide) _ _
      | group => exact hne (by decide) _ _
      | char => simp [List.isPrefixOf, ih hword.2 h]
    | part hpart h =>
      rw [Remainder.print_afterPart]
      cases hpart with
      | @declaration _ _ d =>
        obtain ⟨_, -, inner, hprint⟩ := d.exists_print_eq 0
        rw [Part.print, hprint]
        exact hne (by decide) _ _
      | @reference _ _ direction =>
        rw [Part.print_reference]
        exact hne (by cases direction <;> decide) _ _

theorem ReadsAs.startsDeclaration_print (h : ReadsAs before text r) :
    startsDeclaration r.print = startsDeclaration text := by
  have hfun := h.isPrefixOf_print ['f', 'u', 'n'] rfl
  have hclass := h.isPrefixOf_print ['c', 'l', 'a', 's', 's'] rfl
  exact congrArg₂ (· || ·) hfun hclass

theorem IsText.print (h : IsText chunk rest) (hreads : ReadsAs before rest r) :
    IsText chunk r.print := by
  have hhead := hreads.head?_print
  cases h with
  | pair => exact .pair
  | backslash hnext hstarts =>
    refine .backslash ?_ ?_
    · rw [hhead]
      exact hnext
    · rw [hreads.startsDeclaration_print]
      exact hstarts
  | @group group rest hgroup =>
    refine .group ?_
    by_cases hrest : rest = []
    · -- The group is not closed, so that there is nothing after it in the printed text either.
      rw [hrest, List.head?_nil, List.head?_eq_none_iff] at hhead
      rw [hhead, ← hrest]
      exact hgroup
    · have hclosed := splitGroup_of_closed 0 (group ++ rest)
      rw [hgroup] at hclosed
      exact hclosed hrest r.print
  | char hbackslash hbrace hmarker =>
    refine .char hbackslash hbrace ?_
    rw [hhead]
    exact hmarker

theorem IsPart.exists_print (h : IsPart before taken rest part) {before₁ : List Char}
    (hreads : ReadsAs before₁ rest r)
    (hwritable : ∀ d ∈ part.declaration?, Writable d.identifiers d.subexpressions)
    (before' : List Char) :
    ∃ part', IsPart before' part.print.toList r.print part' ∧
      part'.forgetSpans = part.forgetSpans := by
  cases h with
  | @declaration _ _ d span =>
    obtain ⟨word, hword, inner, hprint⟩ := d.exists_print_eq 0
    obtain ⟨d', hparse, heq⟩ :=
      Declaration.exists_parse_print (hwritable d rfl) (Position.first.after before') r.print
    rw [← Position.after_append, Position.offset_after_first, Position.offset_after_first] at hparse
    refine ⟨.declaration d' ⟨Text.byteSize before', Text.byteSize (before' ++ (d.print 0).toList)⟩,
      ?_, ?_⟩
    · rw [Part.print]
      rw [hprint] at hparse ⊢
      refine .declaration ?_ ?_ rfl hparse
      · rw [← List.cons_append, ← List.append_assoc, List.getLast?_concat]
      · rcases List.mem_cons.1 hword with rfl | hword
        · rfl
        · cases List.mem_singleton.1 hword
          rfl
    · rw [Part.forgetSpans, Part.forgetSpans, heq]
  | @reference name _ direction _ hname hword hrest =>
    refine ⟨.reference direction { name := String.ofList name, span := ⟨Text.byteSize before',
      Text.byteSize (before' ++ direction.marker :: name)⟩ }, ?_, rfl⟩
    rw [Part.print_reference]
    refine .reference hname hword ?_ rfl
    rw [hreads.head?_print]
    exact hrest

theorem ReadsAs.exists_print (h : ReadsAs before text r)
    (hwritable : ∀ d ∈ r.parts.filterMap Part.declaration?,
      Writable d.identifiers d.subexpressions) (before' : List Char) :
    ∃ r', ReadsAs before' r.print r' ∧ r'.text = r.text ∧
      r'.parts.map Part.forgetSpans = r.parts.map Part.forgetSpans := by
  induction h generalizing before' with
  | nil => exact ⟨{}, .nil, rfl, rfl⟩
  | @text _ chunk _ r hchunk h ih =>
    obtain ⟨r', hr', htext, hparts⟩ := ih hwritable (before' ++ chunk)
    refine ⟨r'.afterText chunk, ?_, congrArg (chunk ++ ·) htext, hparts⟩
    rw [Remainder.print_afterText]
    exact .text (hchunk.print h) hr'
  | @part _ _ _ part r hpart h ih =>
    rw [Remainder.filterMap_afterPart (fun _ => rfl), List.forall_mem_append] at hwritable
    obtain ⟨hd, hds⟩ := hwritable
    obtain ⟨part', hpart', heq⟩ := hpart.exists_print h (by simpa using hd) before'
    obtain ⟨r', hr', htext, hparts⟩ := ih hds (before' ++ part.print.toList)
    refine ⟨r'.afterPart part', ?_, rfl, ?_⟩
    · rw [Remainder.print_afterPart]
      exact .part hpart' hr'
    · rw [Remainder.afterPart, Remainder.afterPart, List.map_cons, List.map_cons, heq,
        Remainder.map_forgetSpans_toParts htext hparts]

theorem IsPart.print_forgetSpans (h : IsPart before taken rest part) :
    part.forgetSpans.print = part.print := by
  cases h with
  | @declaration _ _ d _ _ _ _ hparse =>
    have hunresolved := Declaration.unresolved_of_parse hparse
    exact d.print_relabel 0 fun x hx => Identifier.print_forgetSpan (hunresolved x hx)
  | reference => rfl

theorem ReadsAs.print_forgetSpans (h : ReadsAs before text r) :
    ∀ part ∈ r.toParts, part.forgetSpans.print = part.print := by
  have hparts : ∀ part ∈ r.parts, part.forgetSpans.print = part.print := by
    induction h with
    | nil => nofun
    | text _ _ ih => exact ih
    | part hpart _ ih =>
      rw [Remainder.afterPart, List.forall_mem_cons]
      exact ⟨hpart.print_forgetSpans, Remainder.forall_mem_toParts (fun _ => rfl) ih⟩
  exact Remainder.forall_mem_toParts (fun _ => rfl) hparts

theorem ReadsAs.print_eq (h : ReadsAs before text r)
    (hnone : r.parts.filterMap Part.declaration? = []) : r.print = text := by
  induction h with
  | nil => rfl
  | text _ _ ih => rw [Remainder.print_afterText, ih hnone]
  | part hpart _ ih =>
    rw [Remainder.filterMap_afterPart (fun _ => rfl), List.append_eq_nil_iff] at hnone
    rw [Remainder.print_afterPart, ih hnone.2]
    cases hpart with
    | declaration => cases hnone.1
    | reference => rw [Part.print_reference]

end

theorem print_forgetSpans {source : String} {doc : Document} (h : ofSource source = .ok doc) :
    doc.forgetSpans.print = doc.print := by
  obtain ⟨r, hr, h⟩ := exists_of_bind_eq_ok h
  cases h
  have hreads : ReadsAs [] source.toList r := readsAs_of_read hr
  rw [print, print, forgetSpans, List.map_map]
  exact congrArg String.join (List.map_congr_left hreads.print_forgetSpans)

/--
A printed document is read as the same document again if its strings and numbers can be written.
Only the places differ, so that it is also printed in the same way. A document without declarations
is printed as its source.
-/
theorem exists_ofSource_print {source : String} {doc : Document} (h : ofSource source = .ok doc)
    (hstrings : ∀ d ∈ doc.declarations, ∀ value, .string value ∈ d.subexpressions →
      ∀ c ∈ value.toList, Text.isQuotable c)
    (hnumbers : ∀ d ∈ doc.declarations, ∀ value, .number value ∈ d.subexpressions →
      (Token.ofSource value.text).map Token.kind = [.number value, .endOfInput]) :
    (∃ doc', ofSource doc.print = .ok doc' ∧ doc'.forgetSpans = doc.forgetSpans ∧
      doc'.print = doc.print) ∧ (doc.declarations = [] → doc.print = source) := by
  have hwritable : ∀ d ∈ doc.declarations, Writable d.identifiers d.subexpressions := by
    intro d hd
    obtain ⟨span, before, rest, -, hparse⟩ := exists_parsesIn_of_mem h hd
    exact Declaration.writable_of_parse hparse (hstrings d hd) (hnumbers d hd)
  obtain ⟨r, hr, hdoc⟩ := exists_of_bind_eq_ok h
  cases hdoc
  have hreads : ReadsAs [] source.toList r := readsAs_of_read hr
  rw [declarations, Remainder.filterMap_toParts (fun _ => rfl)] at hwritable ⊢
  constructor
  · obtain ⟨r', hr', htext, hparts⟩ := hreads.exists_print hwritable []
    have hread : read .first r.print = .ok r' := hr'.read_eq
    have hagain : ofSource (print { parts := r.toParts }) = .ok { parts := r'.toParts } := by
      rw [ofSource, Remainder.toList_print, hread]
      rfl
    have hsame : forgetSpans { parts := r'.toParts } = forgetSpans { parts := r.toParts } :=
      congrArg Document.mk (Remainder.map_forgetSpans_toParts htext hparts)
    refine ⟨_, hagain, hsame, ?_⟩
    rw [← print_forgetSpans hagain, hsame, print_forgetSpans h]
  · intro hnone
    rw [← String.toList_inj, Remainder.toList_print]
    exact hreads.print_eq hnone

def recipeSource : String :=
  "\\\\\\fun\x7bmix\x7d\x7bx\x7d\x7breturn x+'\x7d\\t';// \x7d\n\x7d\x7d@mix!x \\\x7b@no\x7d \x7b!"

def recipe : Document where
  parts := [
    .text "\\\\",
    .declaration (.function { name := "mix", span := ⟨7, 10⟩ } [{ name := "x", span := ⟨12, 13⟩ }]
      [.return (.binary .add (.identifier { name := "x", span := ⟨22, 23⟩ })
        (.string "\x7d\t"))]) ⟨2, 36⟩,
    .text "\x7d",
    .reference .up { name := "mix", span := ⟨37, 41⟩ },
    .reference .down { name := "x", span := ⟨41, 43⟩ },
    .text " \\\x7b@no\x7d \x7b!"]

theorem ofSource_recipeSource : ofSource recipeSource = .ok recipe := by
  cbv

theorem exists_ofSource_print_recipe :
    ofSource recipeSource = .ok recipe ∧
      ∃ doc', ofSource recipe.print = .ok doc' ∧ doc'.forgetSpans = recipe.forgetSpans ∧
        doc'.print = recipe.print := by
  refine ⟨ofSource_recipeSource, (exists_ofSource_print ofSource_recipeSource ?_ ?_).1⟩
  · intro d hd value hvalue
    rw [List.mem_singleton.1 hd] at hvalue
    simp [Declaration.subexpressions, blockSubexpressions, Statement.subexpressions,
      Expr.subexpressions] at hvalue
    rw [hvalue, ← List.all_eq_true]
    decide +kernel
  · intro d hd value hvalue
    rw [List.mem_singleton.1 hd] at hvalue
    simp [Declaration.subexpressions, blockSubexpressions, Statement.subexpressions,
      Expr.subexpressions] at hvalue

end Document

end LiterateFun
