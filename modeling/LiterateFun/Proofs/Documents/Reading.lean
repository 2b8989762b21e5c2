import LiterateFun.Document.Read
import LiterateFun.Proofs.Basics
import LiterateFun.Proofs.Locations

/-!
This module contains what the reader of documents does, step by step: it takes some text, a
declaration or a reference and goes on after it.
-/

namespace LiterateFun

theorem Direction.ofMarker?_eq_some_iff {c : Char} {direction : Direction} :
    Direction.ofMarker? c = some direction ↔ c = direction.marker := by
  unfold Direction.ofMarker?
  cases direction <;> grind [Direction.marker]

namespace Document

/-- The first characters of a text are taken as text, where `rest` comes after them. -/
inductive IsText : List Char → List Char → Prop
  | pair {rest : List Char} : IsText ['\\', '\\'] rest
  | backslash {rest : List Char} (hnext : rest.head? ≠ some '\\')
      (hstarts : startsDeclaration rest = false) : IsText ['\\'] rest
  | group {group rest : List Char} (hgroup : splitGroup 0 (group ++ rest) = (group, rest)) :
      IsText ('{' :: group) rest
  | char {c : Char} {rest : List Char} (hbackslash : c ≠ '\\') (hbrace : c ≠ '{')
      (hmarker : ∀ direction ∈ Direction.ofMarker? c, ∀ d ∈ rest.head?, ¬Token.isWordRest d) :
      IsText [c] rest

/-- The first characters of a text that comes after another one are taken as a part. -/
inductive IsPart (before : List Char) : List Char → List Char → Part → Prop
  | declaration {inner rest : List Char} {d : Declaration} {span : Span}
      (hlast : inner.getLast? = some '}') (hstarts : startsDeclaration (inner ++ rest))
      (hspan : span = ⟨Text.byteSize before, Text.byteSize (before ++ '\\' :: inner)⟩)
      (hparse : Declaration.parse
        (Token.scan (Position.first.after before) ('\\' :: (inner ++ rest))) = .ok (d, span)) :
      IsPart before ('\\' :: inner) rest (.declaration d span)
  | reference {name rest : List Char} {direction : Direction} {span : Span} (hname : name ≠ [])
      (hword : ∀ c ∈ name, Token.isWordRest c) (hrest : ∀ c ∈ rest.head?, ¬Token.isWordRest c)
      (hspan : span = ⟨Text.byteSize before, Text.byteSize (before ++ direction.marker :: name)⟩) :
      IsPart before (direction.marker :: name) rest
        (.reference direction { name := String.ofList name, span })

/-- The text that comes after another one in a document is read as the remainder. -/
inductive ReadsAs : List Char → List Char → Remainder → Prop
  | nil {before : List Char} : ReadsAs before [] {}
  | text {before chunk rest : List Char} {r : Remainder} (hchunk : IsText chunk rest)
      (h : ReadsAs (before ++ chunk) rest r) : ReadsAs before (chunk ++ rest) (r.afterText chunk)
  | part {before taken rest : List Char} {part : Part} {r : Remainder}
      (hpart : IsPart before taken rest part) (h : ReadsAs (before ++ taken) rest r) :
      ReadsAs before (taken ++ rest) (r.afterPart part)

theorem skipTo_append {p : Position} {before : List Char} {offset : Nat}
    (h : (p.after before).offset = offset) (after : List Char) :
    skipTo offset p (before ++ after) = (p.after before, after) := by
  induction before generalizing p with
  | nil =>
    cases after with
    | nil => rfl
    | cons c after => simp_all [skipTo]
  | cons c before ih =>
    have hlt : p.offset < offset := by
      have := c.utf8Size_pos
      rw [Position.offset_after, Text.byteSize_cons] at h
      omega
    rw [List.cons_append, skipTo, if_pos hlt]
    exact ih h

theorem read_of_isText {chunk rest : List Char} (h : IsText chunk rest) (p : Position) :
    read p (chunk ++ rest) =
      (do let r ← read (p.after chunk) rest
          .ok (r.afterText chunk)) := by
  cases h with
  | pair =>
    rw [read.eq_def]
    rfl
  | backslash hnext hstarts =>
    rw [read.eq_def]
    cases rest with
    | nil => rfl
    | cons c rest =>
      have hc : c ≠ '\\' := by simpa using hnext
      simp [hc, hstarts]
  | group hgroup =>
    rw [read.eq_def]
    simp [hgroup]
  | @char c rest hbackslash hbrace hmarker =>
    rw [List.singleton_append, read.eq_def]
    have htake (direction : Direction) (h : Direction.ofMarker? c = some direction) :
        rest.takeWhile Token.isWordRest = [] :=
      takeWhile_eq_nil_of_head? (hmarker direction h)
    split
    next heq => cases heq
    next heq => exact absurd (List.cons.inj heq).1 hbackslash
    next heq => exact absurd (List.cons.inj heq).1 hbackslash
    next heq => exact absurd (List.cons.inj heq).1 hbrace
    next heq =>
      obtain ⟨rfl, rfl⟩ := List.cons.inj heq
      split
      next direction d name hdirection hname =>
        rw [htake direction hdirection] at hname
        cases hname
      next => rfl

theorem read_of_startsDeclaration {rest : List Char} (h : startsDeclaration rest) (p : Position) :
    read p ('\\' :: rest) =
      (do let (d, span) ← Declaration.parse (Token.scan p ('\\' :: rest))
          let (q, rest') := skipTo span.stop (p.next '\\') rest
          let r ← read q rest'
          .ok (r.afterPart (.declaration d span))) := by
  rw [read.eq_def]
  split
  next heq => cases heq
  next heq =>
    rw [(List.cons.inj heq).2] at h
    cases h
  next heq =>
    obtain ⟨-, rfl⟩ := List.cons.inj heq
    rw [if_pos h]
  next heq => cases heq
  next hbackslash _ heq => exact absurd (List.cons.inj heq).1.symm hbackslash

theorem read_of_isPart {before taken rest : List Char} {part : Part}
    (h : IsPart before taken rest part) :
    read (Position.first.after before) (taken ++ rest) =
      (do let r ← read (Position.first.after (before ++ taken)) rest
          .ok (r.afterPart part)) := by
  cases h with
  | @declaration inner rest d span hlast hstarts hspan hparse =>
    have hskip : skipTo span.stop ((Position.first.after before).next '\\') (inner ++ rest) =
        (Position.first.after (before ++ '\\' :: inner), rest) := by
      rw [Position.after_append]
      refine skipTo_append ?_ rest
      rw [hspan, ← Position.after_cons, ← Position.after_append, Position.offset_after_first]
    rw [List.cons_append, read_of_startsDeclaration hstarts, hparse]
    simp only [bind, Except.bind, hskip]
  | @reference name rest direction span hname hword hrest hspan =>
    have htake : (name ++ rest).takeWhile Token.isWordRest = name := by
      rw [List.takeWhile_append_of_pos hword, takeWhile_eq_nil_of_head? hrest, List.append_nil]
    have hdrop : (name ++ rest).dropWhile Token.isWordRest = rest := by
      have hsplit := List.takeWhile_append_dropWhile (p := Token.isWordRest) (l := name ++ rest)
      rw [htake] at hsplit
      exact List.append_cancel_left hsplit
    have hmarker : Direction.ofMarker? direction.marker = some direction :=
      Direction.ofMarker?_eq_some_iff.2 rfl
    rw [List.cons_append, read.eq_def]
    split
    next heq => cases heq
    next heq => cases direction <;> cases heq
    next heq => cases direction <;> cases heq
    next heq => cases direction <;> cases heq
    next heq =>
      obtain ⟨rfl, rfl⟩ := List.cons.inj heq
      obtain ⟨d, name, rfl⟩ := List.exists_cons_of_ne_nil hname
      simp only [hmarker, htake, hdrop, hspan, ← Position.after_append, Position.offset_after_first]

theorem ReadsAs.read_eq {before text : List Char} {r : Remainder} (h : ReadsAs before text r) :
    read (Position.first.after before) text = .ok r := by
  induction h with
  | nil => rw [read.eq_def]
  | text hchunk h ih =>
    rw [read_of_isText hchunk, ← Position.after_append, ih]
    rfl
  | part hpart h ih =>
    rw [read_of_isPart hpart, ih]
    rfl

inductive Step : List Char → Prop
  | nil : Step []
  | text {chunk rest : List Char} (h : IsText chunk rest) : Step (chunk ++ rest)
  | declaration {rest : List Char} (h : startsDeclaration rest) : Step ('\\' :: rest)
  | reference {name rest : List Char} {direction : Direction} (hname : name ≠ [])
      (hword : ∀ c ∈ name, Token.isWordRest c) (hrest : ∀ c ∈ rest.head?, ¬Token.isWordRest c) :
      Step (direction.marker :: (name ++ rest))

theorem step (text : List Char) : Step text := by
  cases text with
  | nil => exact .nil
  | cons c rest =>
    by_cases hbackslash : c = '\\'
    · subst hbackslash
      by_cases hnext : rest.head? = some '\\'
      · obtain ⟨rest', rfl⟩ := List.head?_eq_some_iff.1 hnext
        exact .text .pair
      · cases hstarts : startsDeclaration rest with
        | true => exact .declaration hstarts
        | false => exact .text (.backslash hnext hstarts)
    · by_cases hbrace : c = '{'
      · have hsplit := splitGroup_append 0 rest
        have hgroup : IsText ('{' :: (splitGroup 0 rest).1) (splitGroup 0 rest).2 := by
          refine .group ?_
          rw [hsplit]
        have hstep := Step.text hgroup
        rw [List.cons_append, hsplit] at hstep
        rw [hbrace]
        exact hstep
      · by_cases hmarker : ∃ direction, Direction.ofMarker? c = some direction ∧
            rest.takeWhile Token.isWordRest ≠ []
        · obtain ⟨direction, hdirection, hname⟩ := hmarker
          rw [Direction.ofMarker?_eq_some_iff.1 hdirection,
            ← List.takeWhile_append_dropWhile (p := Token.isWordRest) (l := rest)]
          refine .reference hname (List.all_eq_true.1 List.all_takeWhile) fun d hd => ?_
          have hnot := List.head?_dropWhile_not Token.isWordRest rest
          rw [hd] at hnot
          simp [hnot]
        · refine .text (.char hbackslash hbrace fun direction hdirection d hd hword => ?_)
          obtain ⟨rest', rfl⟩ := List.head?_eq_some_iff.1 hd
          exact hmarker ⟨direction, hdirection, by simp [hword]⟩

theorem IsText.length_pos {chunk rest : List Char} (h : IsText chunk rest) : 0 < chunk.length := by
  cases h <;> exact Nat.zero_lt_succ _

theorem IsPart.length_pos {before taken rest : List Char} {part : Part}
    (h : IsPart before taken rest part) : 0 < taken.length := by
  cases h <;> exact Nat.zero_lt_succ _

theorem exists_isPart_of_parse {before rest : List Char} (hstarts : startsDeclaration rest)
    {d : Declaration} {span : Span}
    (h : Declaration.parse (Token.scan (Position.first.after before) ('\\' :: rest)) =
      .ok (d, span)) :
    ∃ inner after, rest = inner ++ after ∧
      IsPart before ('\\' :: inner) after (.declaration d span) := by
  obtain ⟨inner, after, rfl, hspan⟩ := Declaration.exists_of_parse_scan h
  rw [← Position.after_append, Position.offset_after_first, Position.offset_after_first] at hspan
  rw [List.append_cons] at hstarts h
  exact ⟨inner ++ ['}'], after, List.append_cons _ _ _,
    .declaration List.getLast?_concat hstarts hspan h⟩

theorem readsAs_of_read {before text : List Char} {r : Remainder}
    (h : read (Position.first.after before) text = .ok r) : ReadsAs before text r := by
  induction hlength : text.length using Nat.strongRecOn generalizing before text r with
  | ind length ih =>
    subst hlength
    have hpart {taken rest : List Char} {part : Part} (hpart : IsPart before taken rest part)
        (htext : text = taken ++ rest) : ReadsAs before text r := by
      have hlt : rest.length < text.length := by
        have := hpart.length_pos
        rw [htext, List.length_append]
        omega
      rw [htext, read_of_isPart hpart] at h
      obtain ⟨r, hr, h⟩ := exists_of_bind_eq_ok h
      cases h
      rw [htext]
      exact .part hpart (ih _ hlt hr rfl)
    cases step text with
    | nil =>
      rw [read.eq_def] at h
      cases h
      exact .nil
    | @text chunk rest hchunk =>
      have hlt : rest.length < (chunk ++ rest).length := by
        have := hchunk.length_pos
        rw [List.length_append]
        omega
      rw [read_of_isText hchunk, ← Position.after_append] at h
      obtain ⟨r, hr, h⟩ := exists_of_bind_eq_ok h
      cases h
      exact .text hchunk (ih _ hlt hr rfl)
    | @declaration rest hstarts =>
      obtain ⟨⟨d, span⟩, hparse, -⟩ := exists_of_bind_eq_ok
        ((read_of_startsDeclaration hstarts _).symm.trans h)
      obtain ⟨inner, after, rfl, hdeclaration⟩ := exists_isPart_of_parse hstarts hparse
      exact hpart hdeclaration rfl
    | reference hname hword hrest => exact hpart (.reference hname hword hrest rfl) rfl

theorem eq_error_of_bind {x : Except ParseError α} {f : α → β} {e : ParseError}
    (h : (do let a ← x; .ok (f a)) = .error e) : x = .error e := by
  cases x with
  | error e' => exact congrArg Except.error (Except.error.inj h)
  | ok a => cases h

def ParsesIn (before text : List Char) (result : Except ParseError (Declaration × Span)) : Prop :=
  ∃ taken rest, taken ++ rest = text ∧
    Declaration.parse (Token.scan (Position.first.after (before ++ taken)) rest) = result

theorem parsesIn_of_parse {before text : List Char}
    {result : Except ParseError (Declaration × Span)}
    (h : Declaration.parse (Token.scan (Position.first.after before) text) = result) :
    ParsesIn before text result := by
  refine ⟨[], text, rfl, ?_⟩
  rw [List.append_nil]
  exact h

theorem ParsesIn.append {before taken text : List Char}
    {result : Except ParseError (Declaration × Span)} (h : ParsesIn (before ++ taken) text result) :
    ParsesIn before (taken ++ text) result := by
  obtain ⟨taken', rest, rfl, hparse⟩ := h
  refine ⟨taken ++ taken', rest, List.append_assoc .., ?_⟩
  rw [← List.append_assoc]
  exact hparse

theorem parsesIn_of_read_error {before text : List Char} {e : ParseError}
    (h : read (Position.first.after before) text = .error e) :
    ParsesIn before text (.error e) := by
  induction hlength : text.length using Nat.strongRecOn generalizing before text with
  | ind length ih =>
    subst hlength
    have hafter {taken rest : List Char} (htext : text = taken ++ rest) (htaken : 0 < taken.length)
        (h : read (Position.first.after (before ++ taken)) rest = .error e) :
        ParsesIn before text (.error e) := by
      have hlt : rest.length < text.length := by
        rw [htext, List.length_append]
        omega
      rw [htext]
      exact (ih _ hlt h rfl).append
    have hpart {taken rest : List Char} {part : Part} (hpart : IsPart before taken rest part)
        (htext : text = taken ++ rest) : ParsesIn before text (.error e) := by
      rw [htext, read_of_isPart hpart] at h
      exact hafter htext hpart.length_pos (eq_error_of_bind h)
    cases step text with
    | nil =>
      rw [read.eq_def] at h
      cases h
    | @text chunk rest hchunk =>
      rw [read_of_isText hchunk, ← Position.after_append] at h
      exact hafter rfl hchunk.length_pos (eq_error_of_bind h)
    | @declaration rest hstarts =>
      cases hparse :
        Declaration.parse (Token.scan (Position.first.after before) ('\\' :: rest)) with
      | error e' =>
        rw [read_of_startsDeclaration hstarts, hparse] at h
        cases h
        exact parsesIn_of_parse hparse
      | ok parsed =>
        obtain ⟨inner, after, rfl, hdeclaration⟩ := exists_isPart_of_parse hstarts hparse
        exact hpart hdeclaration rfl
    | reference hname hword hrest => exact hpart (.reference hname hword hrest rfl) rfl

theorem Remainder.mem_toParts {r : Remainder} {part : Part} (h : part ∈ r.toParts) :
    part ∈ r.parts ∨ r.text ≠ [] ∧ part = .text (String.ofList r.text) := by
  unfold toParts at h
  split at h
  · exact .inl h
  next hne =>
    rcases List.mem_cons.1 h with h | h
    · exact .inr ⟨hne, h⟩
    · exact .inl h

theorem Remainder.filterMap_toParts {f : Part → Option α} (hf : ∀ s, f (.text s) = none)
    (r : Remainder) : r.toParts.filterMap f = r.parts.filterMap f := by
  unfold toParts
  split
  · rfl
  · exact List.filterMap_cons_none (hf _)

theorem Remainder.filterMap_afterPart {f : Part → Option α} (hf : ∀ s, f (.text s) = none)
    (r : Remainder) (part : Part) :
    (r.afterPart part).parts.filterMap f = (f part).toList ++ r.parts.filterMap f := by
  rw [afterPart, List.filterMap_cons, filterMap_toParts hf]
  cases f part <;> rfl

theorem ReadsAs.parsesIn {before text : List Char} {r : Remainder} (h : ReadsAs before text r)
    {d : Declaration} {span : Span} (hd : .declaration d span ∈ r.parts) :
    ParsesIn before text (.ok (d, span)) := by
  induction h with
  | nil => cases hd
  | text _ _ ih => exact (ih hd).append
  | part hpart _ ih =>
    rcases List.mem_cons.1 hd with rfl | hd
    · cases hpart with
      | declaration _ _ _ hparse => exact parsesIn_of_parse hparse
    · rcases Remainder.mem_toParts hd with hd | ⟨-, hd⟩
      · exact (ih hd).append
      · cases hd

theorem parsesIn_of_mem {source : String} {doc : Document} (h : ofSource source = .ok doc)
    {d : Declaration} {span : Span} (hd : .declaration d span ∈ doc.parts) :
    ParsesIn [] source.toList (.ok (d, span)) := by
  obtain ⟨r, hr, h⟩ := exists_of_bind_eq_ok h
  cases h
  have hreads : ReadsAs [] source.toList r := readsAs_of_read hr
  rcases Remainder.mem_toParts hd with hd | ⟨-, hd⟩
  · exact hreads.parsesIn hd
  · cases hd

theorem exists_parsesIn_of_mem {source : String} {doc : Document}
    (h : ofSource source = .ok doc) {d : Declaration} (hd : d ∈ doc.declarations) :
    ∃ span, ParsesIn [] source.toList (.ok (d, span)) := by
  obtain ⟨part, hpart, hd⟩ := List.mem_filterMap.1 hd
  cases part with
  | declaration d' span =>
    cases hd
    exact ⟨span, parsesIn_of_mem h hpart⟩
  | text s => cases hd
  | reference direction x => cases hd

end Document

end LiterateFun
