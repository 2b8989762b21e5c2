import LiterateFun.Proofs.Printing.Leaves
import LiterateFun.Proofs.Subexpressions

/-!
This module contains the theorem that a printed expression can be read in one way only. Where it
stands at the start of a text, the text tells the expression and where it ends, so that what comes
after it can be read next.
-/

namespace LiterateFun

/--
The identifiers and the expressions of a program are such that its printed form shows what they are:
names are names and numbers are finite.
-/
structure Printable (xs : List Identifier) (es : List Expr) : Prop where
  isName : ∀ x ∈ xs, isName x.name
  isFinite : ∀ value, .number value ∈ es → value.isFinite

theorem Printable.mono {xs xs' : List Identifier} {es es' : List Expr} (h : Printable xs es)
    (hxs : xs' ⊆ xs) (hes : es' ⊆ es) : Printable xs' es' where
  isName x hx := h.isName x (hxs hx)
  isFinite value hmem := h.isFinite value (hes hmem)

namespace Expr

abbrev IsPrintable (e : Expr) : Prop :=
  Printable e.identifiers e.subexpressions

theorem isPrintable_identifier {x : Identifier} (h : (identifier x).IsPrintable) :
    isName x.name :=
  h.isName x (by simp [identifiers])

theorem isPrintable_binary {op : Operator} {left right : Expr}
    (h : (binary op left right).IsPrintable) : left.IsPrintable ∧ right.IsPrintable :=
  ⟨h.mono (by simp [identifiers]) (by simp [subexpressions]),
    h.mono (by simp [identifiers]) (by simp [subexpressions])⟩

theorem isPrintable_assign {target value : Expr} (h : (assign target value).IsPrintable) :
    target.IsPrintable ∧ value.IsPrintable :=
  ⟨h.mono (by simp [identifiers]) (by simp [subexpressions]),
    h.mono (by simp [identifiers]) (by simp [subexpressions])⟩

theorem isPrintable_declare {x : Identifier} {value : Expr} (h : (declare x value).IsPrintable) :
    isName x.name ∧ value.IsPrintable :=
  ⟨h.isName x (by simp [identifiers]), h.mono (by simp [identifiers]) (by simp [subexpressions])⟩

theorem isPrintable_list {es : List Expr}
    (h : Printable (identifiersList es) (subexpressionsList es)) : ∀ e ∈ es, e.IsPrintable := by
  induction es with
  | nil => simp
  | cons e es ih =>
    rw [List.forall_mem_cons]
    exact ⟨h.mono (List.subset_append_left _ _) (List.subset_append_left _ _),
      ih (h.mono (List.subset_append_right _ _) (List.subset_append_right _ _))⟩

theorem isPrintable_call {callee : Expr} {arguments : List Expr}
    (h : (call callee arguments).IsPrintable) :
    callee.IsPrintable ∧ ∀ e ∈ arguments, e.IsPrintable :=
  ⟨h.mono (by simp [identifiers]) (by simp [subexpressions]),
    isPrintable_list (h.mono (by simp [identifiers]) (by simp [subexpressions]))⟩

end Expr

section

variable {α : Type}

/-- Two items with the same text, up to a character that is not of a word, are shown as the same. -/
def TellsApart (text : α → List Char) (view : α → α) (a a' : α) : Prop :=
  ∀ d d' rest rest', Token.isWordRest d = false → Token.isWordRest d' = false →
    text a ++ d :: rest = text a' ++ d' :: rest' → view a = view a' ∧ d :: rest = d' :: rest'

variable {text : α → List Char} {view : α → α} {close : Char}

theorem intercalate_cons_eq (a : α) (items : List α) :
    [',', ' '].intercalate ((a :: items).map text) =
      text a ++ items.flatMap fun b => ',' :: ' ' :: text b := by
  induction items generalizing a with
  | nil => simp
  | cons b items ih =>
    rw [List.map_cons, List.map_cons, List.intercalate_cons_cons, ← List.map_cons, ih]
    simp

theorem flatMap_append_inj {items items' : List α} (hclose : close ≠ ',')
    (hword : Token.isWordRest close = false)
    (hitems : ∀ a ∈ items, ∀ a' ∈ items', TellsApart text view a a') {rest rest' : List Char}
    (h : (items.flatMap fun a => ',' :: ' ' :: text a) ++ close :: rest =
      (items'.flatMap fun a => ',' :: ' ' :: text a) ++ close :: rest') :
    items.map view = items'.map view ∧ rest = rest' := by
  have hnext (items : List α) (rest : List Char) :
      ∃ d after, (items.flatMap fun a => ',' :: ' ' :: text a) ++ close :: rest = d :: after ∧
        Token.isWordRest d = false := by
    cases items with
    | nil => exact ⟨close, rest, rfl, hword⟩
    | cons a items => exact ⟨',', _, rfl, rfl⟩
  induction items generalizing items' with
  | nil =>
    cases items' with
    | nil => exact ⟨rfl, (List.cons.inj h).2⟩
    | cons a' items' => exact absurd (List.cons.inj h).1 hclose
  | cons a items ih =>
    cases items' with
    | nil => exact absurd (List.cons.inj h).1.symm hclose
    | cons a' items' =>
      obtain ⟨d, after, hafter, hd⟩ := hnext items rest
      obtain ⟨d', after', hafter', hd'⟩ := hnext items' rest'
      simp only [List.flatMap_cons, List.cons_append, List.append_assoc, List.cons.injEq,
        true_and] at h
      rw [hafter, hafter'] at h
      obtain ⟨ha, h⟩ := hitems a List.mem_cons_self a' List.mem_cons_self _ _ _ _ hd hd' h
      rw [← hafter, ← hafter'] at h
      obtain ⟨hitems, hrest⟩ := ih (fun a ha a' ha' => hitems a (List.mem_cons_of_mem _ ha) a'
        (List.mem_cons_of_mem _ ha')) h
      exact ⟨by rw [List.map_cons, List.map_cons, ha, hitems], hrest⟩

theorem intercalate_append_inj {items items' : List α} (hclose : close ≠ ',')
    (hword : Token.isWordRest close = false)
    (hstart : ∀ a ∈ items ++ items', ∃ c rest, text a = c :: rest ∧ c ≠ close)
    (hitems : ∀ a ∈ items, ∀ a' ∈ items', TellsApart text view a a') {rest rest' : List Char}
    (h : [',', ' '].intercalate (items.map text) ++ close :: rest =
      [',', ' '].intercalate (items'.map text) ++ close :: rest') :
    items.map view = items'.map view ∧ rest = rest' := by
  obtain ⟨hstart, hstart'⟩ := List.forall_mem_append.1 hstart
  cases items with
  | nil =>
    cases items' with
    | nil => exact ⟨rfl, (List.cons.inj h).2⟩
    | cons a' items' =>
      obtain ⟨c, after, htext, hc⟩ := hstart' a' List.mem_cons_self
      rw [intercalate_cons_eq, htext] at h
      exact absurd (List.cons.inj h).1.symm hc
  | cons a items =>
    cases items' with
    | nil =>
      obtain ⟨c, after, htext, hc⟩ := hstart a List.mem_cons_self
      rw [intercalate_cons_eq, htext] at h
      exact absurd (List.cons.inj h).1 hc
    | cons a' items' =>
      -- A comma before the first item as well makes all items alike.
      apply flatMap_append_inj hclose hword hitems
      rw [intercalate_cons_eq, intercalate_cons_eq] at h
      simp only [List.flatMap_cons, List.cons_append, h]

end

inductive Lead
  | quote
  | number
  | name
  | expression
deriving DecidableEq

def Lead.ofChar (c : Char) : Lead :=
  if c = '"' then .quote
  else if c = '(' then .expression
  else if c = '<' ∨ Token.isWordStart c then .name
  else .number

theorem Lead.ofChar_of_isWordStart {c : Char} (h : c = '<' ∨ Token.isWordStart c) :
    Lead.ofChar c = .name := by
  have hquote : c ≠ '"' := by
    rintro rfl
    revert h
    decide
  have hparen : c ≠ '(' := by
    rintro rfl
    revert h
    decide
  rw [ofChar, if_neg hquote, if_neg hparen, if_pos h]

theorem Lead.ofChar_of_isDigit {c : Char} (h : c = '-' ∨ c.isDigit ∨ c = '.') :
    Lead.ofChar c = .number := by
  obtain rfl | h | rfl := h
  · rfl
  · have hword := Token.not_isWordStart_of_isDigit h
    have hquote : c ≠ '"' := by
      rintro rfl
      contradiction
    have hparen : c ≠ '(' := by
      rintro rfl
      contradiction
    have hangle : c ≠ '<' := by
      rintro rfl
      contradiction
    rw [ofChar, if_neg hquote, if_neg hparen, if_neg (not_or_intro hangle hword)]
  · rfl

theorem Operator.text_append_inj {op op' : Operator} {rest rest' : List Char}
    (h : op.text.toList ++ rest = op'.text.toList ++ rest') : op = op' ∧ rest = rest' := by
  cases op <;> cases op' <;> simp_all [Operator.text]

theorem Operator.exists_text_eq (op : Operator) :
    ∃ c, op.text.toList = [c] ∧ c ≠ '=' := by
  cases op <;> exact ⟨_, rfl, by decide⟩

namespace Expr

theorem printEach_eq_map (es : List Expr) : printEach es = es.map print := by
  induction es with
  | nil => rfl
  | cons e es ih => rw [printEach, ih, List.map_cons]

theorem relabelList_eq_map (f : Identifier → Identifier) (es : List Expr) :
    relabelList f es = es.map (relabel f) := by
  induction es with
  | nil => rfl
  | cons e es ih => rw [relabelList, ih, List.map_cons]

def lead : Expr → Lead
  | .string _ => .quote
  | .number _ => .number
  | .identifier _ => .name
  | .binary _ _ _ => .expression
  | .call _ _ => .expression
  | .assign _ _ => .expression
  | .declare _ _ => .name

section

variable (rest : List Char)

theorem print_string_append (value : String) :
    (string value).print.toList ++ rest = '(' :: ((Text.quote value).toList ++ ')' :: rest) := by
  simp [print]

theorem print_number_append (value : Number) :
    (number value).print.toList ++ rest = '(' :: (value.text.toList ++ ')' :: rest) := by
  simp [print]

theorem print_identifier_append (x : Identifier) :
    (identifier x).print.toList ++ rest = '(' :: (x.print.toList ++ ')' :: rest) := by
  simp [print]

theorem print_binary_append (op : Operator) (left right : Expr) :
    (binary op left right).print.toList ++ rest =
      '(' :: (left.print.toList ++
        ' ' :: (op.text.toList ++ ' ' :: (right.print.toList ++ ')' :: rest))) := by
  simp [print]

theorem print_call_append (callee : Expr) (arguments : List Expr) :
    (call callee arguments).print.toList ++ rest =
      '(' :: (callee.print.toList ++
        '(' :: ([',', ' '].intercalate (arguments.map fun e => e.print.toList) ++
          ')' :: ')' :: rest)) := by
  simp [print, printEach_eq_map, String.toList_intercalate, Function.comp_def]

theorem print_assign_append (target value : Expr) :
    (assign target value).print.toList ++ rest =
      '(' :: (target.print.toList ++ ' ' :: '=' :: ' ' :: (value.print.toList ++ ')' :: rest)) := by
  simp [print]

theorem print_declare_append (x : Identifier) (value : Expr) :
    (declare x value).print.toList ++ rest =
      '(' :: (x.print.toList ++
        ' ' :: ':' :: '=' :: ' ' :: (value.print.toList ++ ')' :: rest)) := by
  simp [print]

end

theorem exists_print_eq (e : Expr) : ∃ text, e.print.toList = '(' :: text := by
  cases e <;> exact ⟨_, by simp [print]; rfl⟩

theorem exists_lead_eq (e : Expr) (h : e.IsPrintable) :
    ∃ c text, e.print.toList = '(' :: c :: text ∧ Lead.ofChar c = e.lead := by
  cases e with
  | string value =>
    have hprint := print_string_append [] value
    rw [List.append_nil, Text.toList_quote] at hprint
    exact ⟨'"', _, hprint, rfl⟩
  | number value =>
    obtain ⟨c, text, htext, hc⟩ := Number.exists_text_eq
      (h.isFinite value (by simp [subexpressions]))
    have hprint := print_number_append [] value
    rw [List.append_nil, htext] at hprint
    exact ⟨c, _, hprint, Lead.ofChar_of_isDigit hc⟩
  | identifier x =>
    obtain ⟨c, text, htext, hc⟩ := Identifier.exists_print_eq (isPrintable_identifier h)
    have hprint := print_identifier_append [] x
    rw [List.append_nil, htext] at hprint
    exact ⟨c, _, hprint, Lead.ofChar_of_isWordStart hc⟩
  | binary op left right =>
    obtain ⟨text, htext⟩ := left.exists_print_eq
    have hprint := print_binary_append [] op left right
    rw [List.append_nil, htext] at hprint
    exact ⟨'(', _, hprint, rfl⟩
  | call callee arguments =>
    obtain ⟨text, htext⟩ := callee.exists_print_eq
    have hprint := print_call_append [] callee arguments
    rw [List.append_nil, htext] at hprint
    exact ⟨'(', _, hprint, rfl⟩
  | assign target value =>
    obtain ⟨text, htext⟩ := target.exists_print_eq
    have hprint := print_assign_append [] target value
    rw [List.append_nil, htext] at hprint
    exact ⟨'(', _, hprint, rfl⟩
  | declare x value =>
    obtain ⟨c, text, htext, hc⟩ := Identifier.exists_print_eq (isPrintable_declare h).1
    have hprint := print_declare_append [] x value
    rw [List.append_nil, htext] at hprint
    exact ⟨c, _, hprint, Lead.ofChar_of_isWordStart hc⟩

theorem lead_eq_of_print_append {e e' : Expr} (h : e.IsPrintable) (h' : e'.IsPrintable)
    {rest rest' : List Char} (heq : e.print.toList ++ rest = e'.print.toList ++ rest') :
    e.lead = e'.lead := by
  obtain ⟨c, text, htext, hc⟩ := e.exists_lead_eq h
  obtain ⟨c', text', htext', hc'⟩ := e'.exists_lead_eq h'
  rw [htext, htext'] at heq
  rw [← hc, ← hc', (List.cons.inj (List.cons.inj heq).2).1]

def Readable (e : Expr) : Prop :=
  ∀ e' : Expr, e'.IsPrintable → ∀ rest rest',
    e.print.toList ++ rest = e'.print.toList ++ rest' →
      e.relabel Identifier.shown = e'.relabel Identifier.shown ∧ rest = rest'

theorem readable_string {value : String} (h : (string value).IsPrintable) :
    (string value).Readable := by
  intro e' h' rest rest' heq
  have hlead := lead_eq_of_print_append h h' heq
  cases e' with
  | number | identifier | binary | call | assign | declare => cases hlead
  | string value' =>
    rw [print_string_append, print_string_append] at heq
    obtain ⟨rfl, hrest⟩ := Text.quote_append_inj (List.cons.inj heq).2
    exact ⟨rfl, (List.cons.inj hrest).2⟩

theorem readable_number {value : Number} (h : (number value).IsPrintable) :
    (number value).Readable := by
  intro e' h' rest rest' heq
  have hlead := lead_eq_of_print_append h h' heq
  cases e' with
  | string | identifier | binary | call | assign | declare => cases hlead
  | number value' =>
    have hfinite := h.isFinite value (by simp [subexpressions])
    have hfinite' := h'.isFinite value' (by simp [subexpressions])
    rw [print_number_append, print_number_append] at heq
    obtain ⟨rfl, hrest⟩ := Number.text_append_inj hfinite hfinite' (List.cons.inj heq).2
    exact ⟨rfl, hrest⟩

theorem readable_identifier {x : Identifier} (h : (identifier x).IsPrintable) :
    (identifier x).Readable := by
  intro e' h' rest rest' heq
  have hlead := lead_eq_of_print_append h h' heq
  have hname := isPrintable_identifier h
  cases e' with
  | string | number | binary | call | assign => cases hlead
  | identifier x' =>
    rw [print_identifier_append, print_identifier_append] at heq
    obtain ⟨hx, heq⟩ := Identifier.shown_eq_of_print_append hname (isPrintable_identifier h')
      rfl rfl (List.cons.inj heq).2
    exact ⟨by rw [relabel, relabel, hx], (List.cons.inj heq).2⟩
  | declare x' value' =>
    rw [print_identifier_append, print_declare_append] at heq
    obtain ⟨-, heq⟩ := Identifier.shown_eq_of_print_append hname (isPrintable_declare h').1
      rfl rfl (List.cons.inj heq).2
    exact absurd (List.cons.inj heq).1 (by decide)

theorem readable_declare {x : Identifier} {value : Expr} (h : (declare x value).IsPrintable)
    (hvalue : value.Readable) : (declare x value).Readable := by
  intro e' h' rest rest' heq
  have hlead := lead_eq_of_print_append h h' heq
  have hname := (isPrintable_declare h).1
  cases e' with
  | string | number | binary | call | assign => cases hlead
  | identifier x' =>
    rw [print_declare_append, print_identifier_append] at heq
    obtain ⟨-, heq⟩ := Identifier.shown_eq_of_print_append hname (isPrintable_identifier h')
      rfl rfl (List.cons.inj heq).2
    exact absurd (List.cons.inj heq).1 (by decide)
  | declare x' value' =>
    obtain ⟨hname', hvalue'⟩ := isPrintable_declare h'
    rw [print_declare_append, print_declare_append] at heq
    obtain ⟨hx, heq⟩ := Identifier.shown_eq_of_print_append hname hname' rfl rfl
      (List.cons.inj heq).2
    simp only [List.cons.injEq, true_and] at heq
    obtain ⟨hv, heq⟩ := hvalue value' hvalue' _ _ heq
    exact ⟨by rw [relabel, relabel, hx, hv], (List.cons.inj heq).2⟩

theorem readable_binary {op : Operator} {left right : Expr}
    (h : (binary op left right).IsPrintable) (hleft : left.Readable) (hright : right.Readable) :
    (binary op left right).Readable := by
  intro e' h' rest rest' heq
  have hlead := lead_eq_of_print_append h h' heq
  cases e' with
  | string | number | identifier | declare => cases hlead
  | binary op' left' right' =>
    obtain ⟨hleft', hright'⟩ := isPrintable_binary h'
    rw [print_binary_append, print_binary_append] at heq
    obtain ⟨hl, heq⟩ := hleft left' hleft' _ _ (List.cons.inj heq).2
    obtain ⟨hop, heq⟩ := Operator.text_append_inj (List.cons.inj heq).2
    obtain ⟨hr, heq⟩ := hright right' hright' _ _ (List.cons.inj heq).2
    exact ⟨by rw [relabel, relabel, hop, hl, hr], (List.cons.inj heq).2⟩
  | call callee' arguments' =>
    rw [print_binary_append, print_call_append] at heq
    obtain ⟨-, heq⟩ := hleft callee' (isPrintable_call h').1 _ _ (List.cons.inj heq).2
    exact absurd (List.cons.inj heq).1 (by decide)
  | assign target' value' =>
    obtain ⟨c, hop, hc⟩ := op.exists_text_eq
    rw [print_binary_append, print_assign_append, hop] at heq
    obtain ⟨-, heq⟩ := hleft target' (isPrintable_assign h').1 _ _ (List.cons.inj heq).2
    exact absurd (List.cons.inj (List.cons.inj heq).2).1 hc

theorem readable_assign {target value : Expr} (h : (assign target value).IsPrintable)
    (htarget : target.Readable) (hvalue : value.Readable) : (assign target value).Readable := by
  intro e' h' rest rest' heq
  have hlead := lead_eq_of_print_append h h' heq
  cases e' with
  | string | number | identifier | declare => cases hlead
  | binary op' left' right' =>
    obtain ⟨c, hop, hc⟩ := op'.exists_text_eq
    rw [print_assign_append, print_binary_append, hop] at heq
    obtain ⟨-, heq⟩ := htarget left' (isPrintable_binary h').1 _ _ (List.cons.inj heq).2
    exact absurd (List.cons.inj (List.cons.inj heq).2).1.symm hc
  | call callee' arguments' =>
    rw [print_assign_append, print_call_append] at heq
    obtain ⟨-, heq⟩ := htarget callee' (isPrintable_call h').1 _ _ (List.cons.inj heq).2
    exact absurd (List.cons.inj heq).1 (by decide)
  | assign target' value' =>
    obtain ⟨htarget', hvalue'⟩ := isPrintable_assign h'
    rw [print_assign_append, print_assign_append] at heq
    obtain ⟨ht, heq⟩ := htarget target' htarget' _ _ (List.cons.inj heq).2
    simp only [List.cons.injEq, true_and] at heq
    obtain ⟨hv, heq⟩ := hvalue value' hvalue' _ _ heq
    exact ⟨by rw [relabel, relabel, ht, hv], (List.cons.inj heq).2⟩

theorem arguments_append_inj {es es' : List Expr} (hes : ∀ e ∈ es, e.Readable)
    (hes' : ∀ e ∈ es', e.IsPrintable) {rest rest' : List Char}
    (h : [',', ' '].intercalate (es.map fun e => e.print.toList) ++ ')' :: rest =
      [',', ' '].intercalate (es'.map fun e => e.print.toList) ++ ')' :: rest') :
    relabelList Identifier.shown es = relabelList Identifier.shown es' ∧ rest = rest' := by
  rw [relabelList_eq_map, relabelList_eq_map]
  apply intercalate_append_inj _ rfl _ _ h
  · decide
  · intro e _
    obtain ⟨text, htext⟩ := e.exists_print_eq
    exact ⟨'(', text, htext, by decide⟩
  · intro e he e' he' d d' rest rest' _ _ heq
    exact hes e he e' (hes' e' he') _ _ heq

theorem readable_call {callee : Expr} {arguments : List Expr}
    (h : (call callee arguments).IsPrintable) (hcallee : callee.Readable)
    (harguments : ∀ e ∈ arguments, e.Readable) : (call callee arguments).Readable := by
  intro e' h' rest rest' heq
  have hlead := lead_eq_of_print_append h h' heq
  cases e' with
  | string | number | identifier | declare => cases hlead
  | binary op' left' right' =>
    rw [print_call_append, print_binary_append] at heq
    obtain ⟨-, heq⟩ := hcallee left' (isPrintable_binary h').1 _ _ (List.cons.inj heq).2
    exact absurd (List.cons.inj heq).1 (by decide)
  | assign target' value' =>
    rw [print_call_append, print_assign_append] at heq
    obtain ⟨-, heq⟩ := hcallee target' (isPrintable_assign h').1 _ _ (List.cons.inj heq).2
    exact absurd (List.cons.inj heq).1 (by decide)
  | call callee' arguments' =>
    obtain ⟨hcallee', harguments'⟩ := isPrintable_call h'
    rw [print_call_append, print_call_append] at heq
    obtain ⟨hc, heq⟩ := hcallee callee' hcallee' _ _ (List.cons.inj heq).2
    obtain ⟨ha, heq⟩ := arguments_append_inj harguments harguments' (List.cons.inj heq).2
    exact ⟨by rw [relabel, relabel, hc, ha], (List.cons.inj heq).2⟩

mutual

theorem readable (e : Expr) (h : e.IsPrintable) : e.Readable := by
  match e with
  | .string value => exact readable_string h
  | .number value => exact readable_number h
  | .identifier x => exact readable_identifier h
  | .binary op left right =>
    obtain ⟨hleft, hright⟩ := isPrintable_binary h
    exact readable_binary h (left.readable hleft) (right.readable hright)
  | .call callee arguments =>
    obtain ⟨hcallee, harguments⟩ := isPrintable_call h
    exact readable_call h (callee.readable hcallee) (readable_of_mem arguments harguments)
  | .assign target value =>
    obtain ⟨htarget, hvalue⟩ := isPrintable_assign h
    exact readable_assign h (target.readable htarget) (value.readable hvalue)
  | .declare x value => exact readable_declare h (value.readable (isPrintable_declare h).2)

theorem readable_of_mem (es : List Expr) (h : ∀ e ∈ es, e.IsPrintable) :
    ∀ e ∈ es, e.Readable := by
  match es with
  | [] => simp
  | e :: es =>
    rw [List.forall_mem_cons] at h ⊢
    exact ⟨e.readable h.1, readable_of_mem es h.2⟩

end

end Expr

end LiterateFun
