import LiterateFun.Proofs.Parsing.EarliestError
import LiterateFun.Proofs.Parsing.Names
import LiterateFun.Proofs.Scanning

/-!
This module contains the places of tokens, of parse errors and of declarations in a source.
-/

namespace LiterateFun

theorem Text.byteSize_pos {text : List Char} (h : 0 < text.length) : 0 < byteSize text := by
  cases text with
  | nil => cases h
  | cons c text =>
    have := c.utf8Size_pos
    rw [byteSize_cons]
    omega

theorem Text.byteSize_eq_size (text : List Char) : byteSize text = text.utf8Encode.size := by
  induction text with
  | nil => rfl
  | cons c text ih =>
    rw [← List.singleton_append, List.utf8Encode_append, ByteArray.size_append, byteSize_append, ih]
    simp [List.utf8Encode_singleton]

theorem Position.offset_after_first (text : List Char) :
    (first.after text).offset = Text.byteSize text := by
  rw [offset_after]
  exact Nat.zero_add _

namespace Span

def text? (source : String) (span : Span) : Option String := do
  let (p, rest) ← Position.first.seek? source.toList span.start
  let (_, after) ← p.seek? rest span.stop
  some (String.ofList (rest.take (rest.length - after.length)))

theorem text?_eq_some_iff {source text : String} {span : Span} :
    span.text? source = some text ↔
      ∃ before after, before ++ (text.toList ++ after) = source.toList ∧
        span = ⟨Text.byteSize before, Text.byteSize (before ++ text.toList)⟩ := by
  obtain ⟨start, stop⟩ := span
  simp only [text?, Option.bind_eq_bind, Option.bind_eq_some_iff, Prod.exists,
    Position.seek?_eq_some_iff, Option.some.injEq, Span.mk.injEq]
  constructor
  · rintro ⟨p, rest, ⟨before, hbefore, rfl, rfl⟩, q, after, ⟨taken, rfl, rfl, rfl⟩, rfl⟩
    refine ⟨before, after, ?_, ?_, ?_⟩
    · rw [← hbefore]
      simp
    · simp [Position.first]
    · simp [Position.first]
  · rintro ⟨before, after, hsource, rfl, rfl⟩
    refine ⟨_, _, ⟨before, hsource, rfl, ?_⟩, _, after, ⟨text.toList, rfl, rfl, ?_⟩, ?_⟩
    · simp [Position.first]
    · simp [Position.first]
    · simp

end Span

def TokenKind.spelling? : TokenKind → Option (List Char)
  | .symbol s => some s.text
  | .keyword k => some k.text.toList
  | .identifier name => some name.toList
  | _ => none

namespace Token

theorem exists_of_scan_eq_append {p : Position} {text : List Char} {ts₁ ts₂ : List Token}
    {t : Token} (h : scan p text = ts₁ ++ t :: ts₂) :
    ∃ before after, before ++ (t.lexeme.toList ++ after) = text ∧ t.position = p.after before ∧
      (t.kind ≠ .endOfInput → ts₂ = scan (p.after (before ++ t.lexeme.toList)) after) := by
  fun_induction scan p text generalizing ts₁
  case case1 p text p' hgap =>
    obtain ⟨rfl, rfl, rfl⟩ : ts₁ = [] ∧ t = _ ∧ ts₂ = [] := by
      cases ts₁ with
      | nil =>
        cases h
        exact ⟨rfl, rfl, rfl⟩
      | cons t₁ ts₁ => simp at h
    refine ⟨text, [], by simp, ?_, fun hkind => absurd rfl hkind⟩
    have hsplit := splitGap_append text
    rw [hgap, List.append_nil] at hsplit
    exact congrArg p.after hsplit
  case case2 p text p' c rest hgap r ih =>
    have hsplit := splitGap_append text
    rw [hgap, ← read_splits c rest] at hsplit
    cases ts₁ with
    | nil =>
      obtain ⟨rfl, rfl⟩ := List.cons.inj h
      refine ⟨(splitGap text).1, r.rest, ?_, rfl, fun _ => ?_⟩
      · rw [String.toList_ofList]
        exact hsplit
      · rw [String.toList_ofList, Position.after_append]
    | cons t₁ ts₁ =>
      obtain ⟨before, after, hbefore, hposition, hrest⟩ := ih (List.cons.inj h).2
      refine ⟨(splitGap text).1 ++ (r.lexeme ++ before), after, ?_, ?_, ?_⟩
      · rw [List.append_assoc, List.append_assoc, hbefore]
        exact hsplit
      · simp only [hposition, Position.after_append]
        rfl
      · intro hkind
        rw [hrest hkind]
        simp only [Position.after_append]
        rfl

theorem span_of_position {t : Token} {taken : List Char}
    (h : t.position = Position.first.after taken) :
    t.span = ⟨Text.byteSize taken, Text.byteSize (taken ++ t.lexeme.toList)⟩ := by
  rw [Token.span, h, Position.offset_after_first, Text.byteSize_append]

theorem text?_of_position {source : String} {t : Token} {taken after : List Char}
    (h : t.position = Position.first.after taken)
    (hsource : taken ++ (t.lexeme.toList ++ after) = source.toList) :
    t.span.text? source = some t.lexeme :=
  Span.text?_eq_some_iff.2 ⟨taken, after, hsource, span_of_position h⟩

theorem exists_of_mem_scan_rest {source : String} {before rest : List Char}
    (hsource : before ++ rest = source.toList) {t : Token}
    (ht : t ∈ scan (Position.first.after before) rest) :
    t.span.text? source = some t.lexeme ∧
      ∃ taken, taken <+: source.toList ∧ t.position = Position.first.after taken := by
  obtain ⟨ts₁, ts₂, hscan⟩ := List.append_of_mem ht
  obtain ⟨skipped, after, rfl, hposition, -⟩ := exists_of_scan_eq_append hscan
  rw [← Position.after_append] at hposition
  rw [← List.append_assoc] at hsource
  exact ⟨text?_of_position hposition hsource, before ++ skipped, ⟨_, hsource⟩, hposition⟩

theorem scanFrom?_eq_some_iff {source : String} {offset : Nat} {ts : List Token} :
    scanFrom? source offset = some ts ↔
      ∃ before rest, before ++ rest = source.toList ∧ Text.byteSize before = offset ∧
        scan (Position.first.after before) rest = ts := by
  simp only [scanFrom?, Option.map_eq_some_iff, Prod.exists, Position.seek?_eq_some_iff]
  constructor
  · rintro ⟨_, rest, ⟨before, happend, rfl, hoffset⟩, hscan⟩
    rw [Position.offset_after_first] at hoffset
    exact ⟨before, rest, happend, hoffset, hscan⟩
  · rintro ⟨before, rest, happend, hoffset, hscan⟩
    rw [← Position.offset_after_first] at hoffset
    exact ⟨_, rest, ⟨before, happend, rfl, hoffset⟩, hscan⟩

theorem exists_read_of_mem_scan {p : Position} {text : List Char} {t : Token}
    (ht : t ∈ scan p text) (hkind : t.kind ≠ .endOfInput) :
    ∃ c rest, t.kind = (read c rest).value ∧ t.lexeme = String.ofList (read c rest).lexeme := by
  fun_induction scan p text with
  | case1 =>
    rw [List.mem_singleton.1 ht] at hkind
    exact absurd rfl hkind
  | case2 p text _ c rest _ _ ih =>
    rcases List.mem_cons.1 ht with rfl | ht
    · exact ⟨c, rest, rfl, rfl⟩
    · exact ih ht

theorem spelling?_readNumber (text : List Char) : (readNumber text).value.spelling? = none := by
  rcases readNumber_cases text with ⟨_, h⟩ | ⟨_, h⟩ <;> rw [h] <;> rfl

theorem eq_of_spelling?_wordKind {word : String} {w : List Char}
    (h : (wordKind word).spelling? = some w) : word.toList = w := by
  unfold wordKind at h
  split at h
  next k hk =>
    have hword : k.text = word := by simpa using List.find?_some hk
    rw [← hword]
    exact Option.some.inj h
  next => exact Option.some.inj h

theorem lexeme_of_read {c : Char} {text w : List Char}
    (h : (read c text).value.spelling? = some w) : (read c text).lexeme = w := by
  unfold read at h ⊢
  split at h
  · exact Option.some.inj h
  · split at h
    · simp only [Reading.precededBy, Reading.map, stringKind] at h
      split at h <;> cases h
    · split at h
      · rw [spelling?_readNumber] at h
        cases h
      · split at h
        · have hword := eq_of_spelling?_wordKind h
          rw [String.toList_ofList] at hword
          simp_all [readWord]
        · cases h

theorem lexeme_of_mem_scan {p : Position} {text w : List Char} {t : Token} (ht : t ∈ scan p text)
    (h : t.kind.spelling? = some w) : t.lexeme.toList = w := by
  have hkind : t.kind ≠ .endOfInput := by
    intro hkind
    rw [hkind] at h
    cases h
  obtain ⟨c, rest, hread, hlexeme⟩ := exists_read_of_mem_scan ht hkind
  rw [hread] at h
  rw [hlexeme, String.toList_ofList]
  exact lexeme_of_read h

theorem exists_endOfInput_mem_scan (p : Position) (text : List Char) :
    ∃ t ∈ scan p text, t.kind = .endOfInput := by
  fun_induction scan p text with
  | case1 => exact ⟨_, List.mem_singleton_self _, rfl⟩
  | case2 p text _ c rest _ _ ih =>
    obtain ⟨t, ht, hkind⟩ := ih
    exact ⟨t, List.mem_cons_of_mem _ ht, hkind⟩

end Token

namespace Parse

theorem next_mem_of_viable {derives : List Token → α → Prop} {taken rest : List Token}
    {endToken : Token} (hnoEnd : ∀ ts value, derives ts value → NoEnd ts)
    (hviable : Viable derives taken) (hend : ∃ t ∈ taken ++ rest, t.kind = .endOfInput) :
    next endToken rest ∈ taken ++ rest := by
  obtain ⟨us, value, hvalue⟩ := hviable
  obtain ⟨t, ht, hkind⟩ := hend
  cases rest with
  | nil =>
    rw [List.append_nil] at ht
    exact absurd hkind (hnoEnd _ _ hvalue t (List.mem_append_left us ht))
  | cons t₁ rest => exact List.mem_append_right _ List.mem_cons_self

end Parse

open Parse Grammar

theorem Block.token_mem_of_parse_error {ts : List Token} {e : ParseError}
    (h : Block.parse ts = .error e) (hend : ∃ t ∈ ts, t.kind = .endOfInput) : e.token ∈ ts := by
  obtain ⟨taken, rest, rfl, hviable, herror⟩ := Block.exists_of_parse_error h
  rw [herror rest rfl] at h
  rw [← congrArg ParseError.token (Except.error.inj h)]
  exact next_mem_of_viable (fun _ _ h => h.noEnd) hviable hend

theorem Declaration.token_mem_of_parse_error {ts : List Token} {e : ParseError}
    (h : Declaration.parse ts = .error e) (hend : ∃ t ∈ ts, t.kind = .endOfInput) :
    e.token ∈ ts := by
  have hnoEnd : ∀ taken d, (∃ t ts₁, taken = t :: ts₁ ∧ t.kind = .symbol .backslash ∧
      IsDeclaration ts₁ d) → NoEnd taken := by
    rintro _ d ⟨t, ts₁, rfl, ht, hd⟩
    exact hd.noEnd.cons (ne_endOfInput_of_symbol ht)
  cases settled_declaration ts with
  | @reads d taken rest hts _ _ hreads =>
    subst hts
    obtain ⟨hlt, hd⟩ := hreads _ rest (Token.kind_endAfter _) rfl
    rw [Declaration.parse, hd] at h
    cases h
  | @fails cause taken rest hts hviable hfails =>
    subst hts
    rw [Declaration.parse, hfails _ rest (Token.kind_endAfter _) rfl] at h
    cases h
    exact next_mem_of_viable hnoEnd hviable hend

theorem Grammar.IsBraced.exists_last {ts : List Token} {b : Block} (h : IsBraced ts b) :
    ∃ ts₁ t, ts = ts₁ ++ [t] ∧ t.kind = .symbol .rightBrace := by
  cases h with
  | @mk ts₁ t₁ t₂ _ _ _ hclose => exact ⟨t₁ :: ts₁, t₂, rfl, hclose⟩

theorem Grammar.IsDeclaration.exists_last {ts : List Token} {d : Declaration}
    (h : IsDeclaration ts d) : ∃ ts₁ t, ts = ts₁ ++ [t] ∧ t.kind = .symbol .rightBrace := by
  cases h with
  | @«class» ts₁ _ t _ _ _ _ hbody =>
    obtain ⟨ts₂, t', rfl, ht'⟩ := hbody.exists_last
    exact ⟨t :: (ts₁ ++ ts₂), t', by simp, ht'⟩
  | @function ts₁ ts₂ _ t _ _ _ _ _ _ hbody =>
    obtain ⟨ts₃, t', rfl, ht'⟩ := hbody.exists_last
    exact ⟨t :: (ts₁ ++ (ts₂ ++ ts₃)), t', by simp, ht'⟩
  | @method ts₁ ts₂ _ t _ _ _ _ _ _ _ hbody =>
    obtain ⟨ts₃, t', rfl, ht'⟩ := hbody.exists_last
    exact ⟨t :: (ts₁ ++ (ts₂ ++ ts₃)), t', by simp, ht'⟩

theorem Declaration.exists_of_parse {ts : List Token} {d : Declaration} {span : Span}
    (h : Declaration.parse ts = .ok (d, span)) :
    ∃ t ts₁ t' rest, ts = t :: (ts₁ ++ t' :: rest) ∧ t.kind = .symbol .backslash ∧
      t'.kind = .symbol .rightBrace ∧ IsDeclaration (ts₁ ++ [t']) d ∧
      span = ⟨t.span.start, t'.span.stop⟩ := by
  rw [Declaration.parse] at h
  cases hd : declaration (Token.endAfter ts.getLast?) ts with
  | error e =>
    rw [hd] at h
    cases h
  | ok parsed =>
    obtain ⟨value, rest, hlt⟩ := parsed
    rw [hd] at h
    cases h
    obtain ⟨_, rfl, t, taken, rfl, ht, hdeclaration⟩ := takes_declaration ts ⟨hlt, hd⟩
    obtain ⟨ts₁, t', rfl, ht'⟩ := hdeclaration.exists_last
    refine ⟨t, ts₁, t', rest, by simp, ht, ht', hdeclaration, ?_⟩
    rw [List.length_append, Nat.add_sub_cancel, List.take_left, ← List.cons_append,
      List.getLast?_concat]
    rfl

theorem Declaration.ofSource?_eq_some_iff {source : String} {offset : Nat}
    {r : Except ParseError (Declaration × Span)} :
    Declaration.ofSource? source offset = some r ↔
      ∃ before rest, before ++ rest = source.toList ∧ Text.byteSize before = offset ∧
        Declaration.parse (Token.scan (Position.first.after before) rest) = r := by
  simp only [Declaration.ofSource?, Option.map_eq_some_iff, Token.scanFrom?_eq_some_iff]
  constructor
  · rintro ⟨_, ⟨before, rest, happend, hoffset, rfl⟩, hparse⟩
    exact ⟨before, rest, happend, hoffset, hparse⟩
  · rintro ⟨before, rest, happend, hoffset, hparse⟩
    exact ⟨_, ⟨before, rest, happend, hoffset, rfl⟩, hparse⟩

theorem Declaration.denoted_of_parse {ts : List Token} {d : Declaration} {span : Span}
    (h : Declaration.parse ts = .ok (d, span)) : Denoted ts d.identifiers := by
  obtain ⟨t, ts₁, t', rest, rfl, ht, -, hdeclaration, -⟩ := Declaration.exists_of_parse h
  intro x hx
  obtain ⟨t₁, ht₁, hdenotes⟩ := hdeclaration.denoted ht x hx
  refine ⟨t₁, ?_, hdenotes⟩
  rw [List.append_cons]
  exact List.mem_cons_of_mem _ (List.mem_append_left _ ht₁)

theorem Token.position_of_scan_backslash {p : Position} {text : List Char} {t : Token}
    {ts : List Token} (h : scan p ('\\' :: text) = t :: ts) : t.position = p := by
  have hrest := splitGap_cons (c := '\\') (by decide) (by decide) text
  have hgap : (splitGap ('\\' :: text)).1 = [] := by
    have hsplit := splitGap_append ('\\' :: text)
    rw [hrest] at hsplit
    exact List.append_left_eq_self.1 hsplit
  rw [scan_of_read hrest, hgap] at h
  cases h
  rfl

theorem Declaration.exists_scan_of_parse {p : Position} {text : List Char} {d : Declaration}
    {span : Span} (h : Declaration.parse (Token.scan p ('\\' :: text)) = .ok (d, span)) :
    ∃ inner after t ts t', text = inner ++ '}' :: after ∧
      Token.scan p ('\\' :: text) =
        t :: ts ++ t' :: Token.scan (p.after ('\\' :: (inner ++ ['}']))) after ∧
      t.kind = .symbol .backslash ∧ IsDeclaration (ts ++ [t']) d ∧
      t'.position = p.after ('\\' :: inner) ∧ span = ⟨t.span.start, t'.span.stop⟩ ∧
      span = ⟨p.offset, (p.after ('\\' :: (inner ++ ['}']))).offset⟩ := by
  obtain ⟨t, ts, t', rest, hscan, ht, ht', hdeclaration, rfl⟩ := Declaration.exists_of_parse h
  have hstart := Token.position_of_scan_backslash hscan
  have hmem : t' ∈ Token.scan p ('\\' :: text) := by
    rw [hscan]
    simp
  have hlexeme : t'.lexeme.toList = ['}'] :=
    Token.lexeme_of_mem_scan hmem (by rw [ht']; rfl)
  rw [← List.cons_append] at hscan
  obtain ⟨before, after, hbefore, hposition, hrest⟩ := Token.exists_of_scan_eq_append hscan
  rw [hlexeme] at hbefore hrest
  cases before with
  | nil => cases hbefore
  | cons c inner =>
    obtain ⟨rfl, rfl⟩ := List.cons.inj hbefore
    refine ⟨inner, after, t, ts, t', rfl, ?_, ht, hdeclaration, hposition, rfl, ?_⟩
    · rw [hscan, hrest (by rw [ht']; nofun)]
      rfl
    · rw [Token.span, Token.span, hlexeme, hposition, hstart]
      simp [Nat.add_assoc]

theorem Declaration.exists_of_parse_scan {p : Position} {text : List Char} {d : Declaration}
    {span : Span} (h : Declaration.parse (Token.scan p ('\\' :: text)) = .ok (d, span)) :
    ∃ inner after, text = inner ++ '}' :: after ∧
      span = ⟨p.offset, (p.after ('\\' :: (inner ++ ['}']))).offset⟩ := by
  obtain ⟨inner, after, -, -, -, htext, -, -, -, -, -, hspan⟩ := Declaration.exists_scan_of_parse h
  exact ⟨inner, after, htext, hspan⟩

end LiterateFun
