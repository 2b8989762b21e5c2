import LiterateFun.Program.Print
import LiterateFun.Proofs.Naming.Spelling
import LiterateFun.Proofs.Printing.Expression
import LiterateFun.Proofs.Printing.NumberText

/-!
This module contains the leaves of printed trees: strings, numbers and identifiers. Where two texts
that start with a printed leaf are the same, so are the leaves and what comes after them.
-/

namespace LiterateFun

theorem append_cons_inj_of_class {p : Char → Bool} {text text' : List Char}
    (htext : ∀ c ∈ text, p c) (htext' : ∀ c ∈ text', p c) {d d' : Char} (hd : p d = false)
    (hd' : p d' = false) {rest rest' : List Char}
    (h : text ++ d :: rest = text' ++ d' :: rest') : text = text' ∧ d :: rest = d' :: rest' := by
  have htake (text : List Char) (d : Char) (rest : List Char) (htext : ∀ c ∈ text, p c)
      (hd : p d = false) : (text ++ d :: rest).takeWhile p = text := by
    rw [List.takeWhile_append_of_pos htext, List.takeWhile_cons_of_neg (by simp [hd]),
      List.append_nil]
  have heq := congrArg (List.takeWhile p) h
  rw [htake text d rest htext hd, htake text' d' rest' htext' hd'] at heq
  rw [heq] at h
  exact ⟨heq, List.append_cancel_left h⟩

namespace Text

theorem decimal_append_inj {m n : Nat} {d : Char} (hd : d.isDigit = false) {rest rest' : List Char}
    (h : (decimal m).toList ++ d :: rest = (decimal n).toList ++ d :: rest') :
    m = n ∧ rest = rest' := by
  obtain ⟨heq, hrest⟩ := append_cons_inj_of_class (fun _ => isDigit_of_mem_decimal)
    (fun _ => isDigit_of_mem_decimal) hd hd h
  exact ⟨decimal_injective (String.toList_inj.1 heq), (List.cons.inj hrest).2⟩

theorem digitChar_inj : ∀ m < 16, ∀ n < 16, m.digitChar = n.digitChar → m = n := by
  decide

theorem toDigits_sixteen_inj {m n : Nat} (h : Nat.toDigits 16 m = Nat.toDigits 16 n) : m = n := by
  induction m using Nat.strongRecOn generalizing n with
  | ind m ih =>
    have hlength (k : Nat) : 0 < (Nat.toDigits 16 k).length := Nat.length_toDigits_pos
    rw [Nat.toDigits_eq_if (by decide), Nat.toDigits_eq_if (n := n) (by decide)] at h
    split at h
    next hm =>
      split at h
      next hn => exact digitChar_inj m hm n hn (List.cons.inj h).1
      next =>
        have hlen := congrArg List.length h
        have := hlength (n / 16)
        simp only [List.length_append, List.length_singleton] at hlen
        omega
    next hm =>
      split at h
      next =>
        have hlen := congrArg List.length h
        have := hlength (m / 16)
        simp only [List.length_append, List.length_singleton] at hlen
        omega
      next =>
        obtain ⟨hdiv, hmod⟩ := List.append_inj' h rfl
        have hquotient := ih (m / 16) (by omega) hdiv
        have hremainder := digitChar_inj _ (Nat.mod_lt m (by decide)) _ (Nat.mod_lt n (by decide))
          (List.cons.inj hmod).1
        omega

theorem brace_notMem_toDigits (n : Nat) : '\x7d' ∉ Nat.toDigits 16 n := by
  induction n using Nat.strongRecOn with
  | ind n ih =>
    have hdigit (k : Nat) : '\x7d' ≠ k.digitChar := (Nat.digitChar_ne '\x7d' rfl).symm
    rw [Nat.toDigits_eq_if (by decide)]
    split
    · simp [hdigit]
    · have := ih (n / 16) (by omega)
      simp [hdigit, this]

def unquote? (c : Char) : Option Char :=
  if c = '0' then some '\x00'
  else if c = 't' then some '\t'
  else if c = 'r' then some '\r'
  else if c = 'n' then some '\n'
  else if c = '\\' then some '\\'
  else if c = '"' then some '"'
  else none

theorem quoteChar_cases (c : Char) :
    (∃ d, unquote? d = some c ∧ (quoteChar c).toList = ['\\', d]) ∨
      ((quoteChar c).toList = '\\' :: 'u' :: '\x7b' :: (Nat.toDigits 16 c.toNat ++ ['\x7d'])) ∨
      (c ≠ '\\' ∧ c ≠ '"' ∧ (quoteChar c).toList = [c]) := by
  unfold quoteChar
  split
  next h => exact .inl ⟨'0', by rw [h]; rfl, rfl⟩
  · split
    next h => exact .inl ⟨'t', by rw [h]; rfl, rfl⟩
    · split
      next h => exact .inl ⟨'r', by rw [h]; rfl, rfl⟩
      · split
        next h => exact .inl ⟨'n', by rw [h]; rfl, rfl⟩
        · split
          next h => exact .inl ⟨'\\', by rw [h]; rfl, rfl⟩
          next hbackslash =>
            split
            next h => exact .inl ⟨'"', by rw [h]; rfl, rfl⟩
            next hquote =>
              split
              · exact .inr (.inr ⟨hbackslash, hquote, String.toList_singleton c⟩)
              · exact .inr (.inl (by simp [hex]))

theorem quoteChar_append_inj {c c' : Char} {rest rest' : List Char}
    (h : (quoteChar c).toList ++ rest = (quoteChar c').toList ++ rest') :
    c = c' ∧ rest = rest' := by
  have hmark : unquote? 'u' = none := rfl
  rcases quoteChar_cases c with ⟨d, hd, heq⟩ | heq | ⟨hbackslash, -, heq⟩ <;>
    rcases quoteChar_cases c' with ⟨d', hd', heq'⟩ | heq' | ⟨hbackslash', -, heq'⟩ <;>
    rw [heq, heq'] at h <;> simp only [List.cons_append, List.nil_append, List.cons.injEq] at h
  · obtain ⟨-, rfl, rfl⟩ := h
    rw [hd] at hd'
    exact ⟨Option.some.inj hd', rfl⟩
  · rw [h.2.1, hmark] at hd
    cases hd
  · exact absurd h.1.symm hbackslash'
  · rw [← h.2.1, hmark] at hd'
    cases hd'
  · have hdigits (n : Nat) : ∀ e ∈ Nat.toDigits 16 n, (e != '\x7d') = true := by
      intro e he
      rw [bne_iff_ne]
      rintro rfl
      exact brace_notMem_toDigits n he
    have hrest := h.2.2.2
    rw [List.append_assoc, List.append_assoc] at hrest
    obtain ⟨hnumber, hrest⟩ := append_cons_inj_of_class (hdigits c.toNat) (hdigits c'.toNat)
      rfl rfl hrest
    exact ⟨Char.toNat_inj.1 (toDigits_sixteen_inj hnumber), (List.cons.inj hrest).2⟩
  · exact absurd h.1.symm hbackslash'
  · exact absurd h.1 hbackslash
  · exact absurd h.1 hbackslash
  · exact h

theorem exists_quoteChar_eq (c : Char) : ∃ d text, (quoteChar c).toList = d :: text ∧ d ≠ '"' := by
  rcases quoteChar_cases c with ⟨d, -, heq⟩ | heq | ⟨-, hquote, heq⟩
  · exact ⟨_, _, heq, by decide⟩
  · exact ⟨_, _, heq, by decide⟩
  · exact ⟨_, _, heq, hquote⟩

theorem quoteChars_append_inj {value value' rest rest' : List Char}
    (h : quoteChars value ++ '"' :: rest = quoteChars value' ++ '"' :: rest') :
    value = value' ∧ rest = rest' := by
  have hcons (c : Char) (value : List Char) :
      quoteChars (c :: value) = (quoteChar c).toList ++ quoteChars value := List.flatMap_cons
  induction value generalizing value' with
  | nil =>
    cases value' with
    | nil => exact ⟨rfl, (List.cons.inj h).2⟩
    | cons c' value' =>
      obtain ⟨d, text, heq, hquote⟩ := exists_quoteChar_eq c'
      rw [hcons, heq] at h
      exact absurd (List.cons.inj h).1.symm hquote
  | cons c value ih =>
    cases value' with
    | nil =>
      obtain ⟨d, text, heq, hquote⟩ := exists_quoteChar_eq c
      rw [hcons, heq] at h
      exact absurd (List.cons.inj h).1 hquote
    | cons c' value' =>
      rw [hcons, hcons, List.append_assoc, List.append_assoc] at h
      obtain ⟨rfl, htail⟩ := quoteChar_append_inj h
      obtain ⟨rfl, hrest⟩ := ih htail
      exact ⟨rfl, hrest⟩

theorem toList_quote (value : String) :
    (quote value).toList = '"' :: (quoteChars value.toList ++ ['"']) := by
  simp [quote, quoteChars, String.toList_join, List.flatMap_map]

theorem quote_append_inj {value value' : String} {rest rest' : List Char}
    (h : (quote value).toList ++ rest = (quote value').toList ++ rest') :
    value = value' ∧ rest = rest' := by
  rw [toList_quote, toList_quote, List.cons_append, List.cons_append, List.append_assoc,
    List.append_assoc] at h
  obtain ⟨hvalue, hrest⟩ := quoteChars_append_inj (List.cons.inj h).2
  exact ⟨String.toList_inj.1 hvalue, hrest⟩

end Text

theorem Number.text_append_inj {x y : Number} (hx : x.isFinite) (hy : y.isFinite)
    {rest rest' : List Char} (h : x.text.toList ++ ')' :: rest = y.text.toList ++ ')' :: rest') :
    x = y ∧ rest = rest' := by
  have hchars (x : Number) : ∀ c ∈ x.text.toList, (c != ')') = true := by
    intro c hc
    rw [bne_iff_ne]
    rintro rfl
    have hparen := Number.mem_text hc
    revert hparen
    decide
  obtain ⟨htext, hrest⟩ := append_cons_inj_of_class (hchars x) (hchars y) rfl rfl h
  exact ⟨eq_of_text_eq hx hy (String.toList_inj.1 htext), (List.cons.inj hrest).2⟩

theorem Number.exists_text_eq {x : Number} (h : x.isFinite) :
    ∃ c text, x.text.toList = c :: text ∧ (c = '-' ∨ c.isDigit ∨ c = '.') := by
  have hmagnitude : x.magnitudeText.toList ≠ [] := by
    unfold magnitudeText
    split
    · decide
    · exact Decimal.toList_text_ne_nil _
  obtain ⟨c, text, htext⟩ := List.exists_cons_of_ne_nil hmagnitude
  have hc : c ∈ x.magnitudeText.toList := by
    rw [htext]
    exact List.mem_cons_self
  rw [toList_text_of_isFinite h, htext]
  cases x.isNegative with
  | true => exact ⟨'-', c :: text, rfl, .inl rfl⟩
  | false => exact ⟨c, text, rfl, .inr (mem_magnitudeText hc)⟩

theorem exists_name_eq {name : String} (h : isName name) :
    ∃ c text, name.toList = c :: text ∧ Token.isWordStart c ∧
      ∀ d ∈ name.toList, Token.isWordRest d := by
  unfold isName at h
  split at h
  next => contradiction
  next c text hname =>
    simp only [Bool.and_eq_true, List.all_eq_true] at h
    have hstart : Token.isWordStart c := by
      simpa [Token.isWordStart] using h.1.1
    refine ⟨c, text, hname, hstart, ?_⟩
    rw [hname, List.forall_mem_cons]
    refine ⟨Token.isWordRest_of_isWordStart hstart, ?_⟩
    simpa [Token.isWordRest] using h.1.2

namespace Identifier

def shown (x : Identifier) : Identifier :=
  if x.id.isSome then x else x.forgetSpan

theorem print_shown (x : Identifier) : x.shown.print = x.print := by
  unfold shown
  split
  · rfl
  next h =>
    have hid : x.id = none := by simpa using h
    simp [print, forgetSpan, hid]

theorem toList_print_of_none {x : Identifier} (h : x.id = none) :
    x.print.toList = x.name.toList := by
  rw [print, h]

theorem toList_print_of_some {x : Identifier} {id : Nat} (h : x.id = some id) :
    x.print.toList = '<' :: (x.name.toList ++ ':' :: ((Text.decimal id).toList ++ ';' ::
      ((Text.decimal x.span.start).toList ++ '-' ::
        ((Text.decimal x.span.stop).toList ++ ['>'])))) := by
  simp [print, h]

theorem shown_eq_of_print_append {x y : Identifier} (hx : isName x.name) (hy : isName y.name)
    {d d' : Char} (hd : Token.isWordRest d = false) (hd' : Token.isWordRest d' = false)
    {rest rest' : List Char} (h : x.print.toList ++ d :: rest = y.print.toList ++ d' :: rest') :
    x.shown = y.shown ∧ d :: rest = d' :: rest' := by
  obtain ⟨c, text, hxname, hc, hxword⟩ := exists_name_eq hx
  obtain ⟨c', text', hyname, hc', hyword⟩ := exists_name_eq hy
  cases hxid : x.id with
  | none =>
    rw [toList_print_of_none hxid] at h
    cases hyid : y.id with
    | none =>
      rw [toList_print_of_none hyid] at h
      obtain ⟨hname, hrest⟩ := append_cons_inj_of_class hxword hyword hd hd' h
      have hname := String.toList_inj.1 hname
      refine ⟨?_, hrest⟩
      simp [shown, forgetSpan, hxid, hyid, hname]
    | some id =>
      rw [toList_print_of_some hyid, hxname] at h
      rw [(List.cons.inj h).1] at hc
      contradiction
  | some id =>
    rw [toList_print_of_some hxid] at h
    cases hyid : y.id with
    | none =>
      rw [toList_print_of_none hyid, hyname] at h
      rw [← (List.cons.inj h).1] at hc'
      contradiction
    | some id' =>
      rw [toList_print_of_some hyid] at h
      simp only [List.cons_append, List.append_assoc, List.cons.injEq, true_and] at h
      obtain ⟨hname, h⟩ := append_cons_inj_of_class hxword hyword rfl rfl h
      obtain ⟨hid, h⟩ := Text.decimal_append_inj rfl (List.cons.inj h).2
      obtain ⟨hstart, h⟩ := Text.decimal_append_inj rfl h
      obtain ⟨hstop, h⟩ := Text.decimal_append_inj rfl h
      have hspan : x.span = y.span := Span.mk.injEq .. |>.mpr ⟨hstart, hstop⟩
      have heq : x = y :=
        Identifier.mk.injEq .. |>.mpr
          ⟨String.toList_inj.1 hname, by rw [hxid, hyid, hid], hspan⟩
      exact ⟨by rw [heq], h⟩

theorem exists_print_eq {x : Identifier} (h : isName x.name) :
    ∃ c text, x.print.toList = c :: text ∧ (c = '<' ∨ Token.isWordStart c) := by
  obtain ⟨c, text, hname, hc, -⟩ := exists_name_eq h
  cases hid : x.id with
  | none => exact ⟨c, text, by rw [toList_print_of_none hid, hname], .inr hc⟩
  | some id => exact ⟨'<', _, toList_print_of_some hid, .inl rfl⟩

end Identifier

end LiterateFun
