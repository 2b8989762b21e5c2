import LiterateFun.Lowering.Basic
import LiterateFun.Prelude
import LiterateFun.Script.Render

/-!
This module contains the spelling of names. The text of a variable tells its name and its id, unless
a name without an id ends like a variable.
-/

namespace LiterateFun

namespace Text

theorem isDigit_of_mem_decimal {n : Nat} {c : Char} (h : c ∈ (decimal n).toList) : c.isDigit := by
  rw [decimal, String.toList_ofList] at h
  exact Nat.isDigit_of_mem_toDigits (by decide) (by decide) h

theorem decimal_injective {m n : Nat} (h : decimal m = decimal n) : m = n := by
  have hdigits := congrArg (fun s => Nat.ofDigitChars 10 s.toList 0) h
  simpa [decimal, String.toList_ofList, Nat.ofDigitChars_toDigits] using hdigits

theorem append_decimal_injective {name₁ name₂ : String} {m n : Nat}
    (h : name₁ ++ "_" ++ decimal m = name₂ ++ "_" ++ decimal n) : name₁ = name₂ ∧ m = n := by
  have hdigits : ∀ k, ∀ c ∈ (decimal k).toList.reverse, decide (c ≠ '_') = true := by
    intro k c hc
    rw [decide_eq_true_eq]
    rintro rfl
    exact absurd (isDigit_of_mem_decimal (List.mem_reverse.1 hc)) (by decide)
  have hsuffix : ∀ (name : String) (k : Nat),
      (name ++ "_" ++ decimal k).toList.reverse =
        (decimal k).toList.reverse ++ '_' :: name.toList.reverse := by
    intro name k
    simp
  -- Read from behind, the digits end at the underscore.
  have hreverse := congrArg (fun s : String => s.toList.reverse) h
  simp only [hsuffix] at hreverse
  have htake := congrArg (List.takeWhile fun c => decide (c ≠ '_')) hreverse
  rw [List.takeWhile_append_of_pos (hdigits m), List.takeWhile_append_of_pos (hdigits n),
    List.takeWhile_cons_of_neg (by decide), List.takeWhile_cons_of_neg (by decide),
    List.append_nil, List.append_nil] at htake
  rw [htake, List.append_cancel_left_eq, List.cons.injEq] at hreverse
  constructor
  · exact String.toList_inj.1 (List.reverse_inj.1 hreverse.2)
  · exact decimal_injective (String.toList_inj.1 (List.reverse_inj.1 htake))

end Text

namespace Script

theorem spell_injective {name₁ name₂ : String} (h : spell name₁ = spell name₂) : name₁ = name₂ := by
  have hlist := congrArg String.toList h
  simp only [spell, String.toList_append, List.append_cancel_left_eq] at hlist
  exact String.toList_inj.1 hlist

theorem Variable.text_eq_spell {v : Variable} {id : Nat} (h : v.id = some id) :
    v.text = spell (v.name ++ "_" ++ Text.decimal id) := by
  rw [Variable.text, h]
  simp only [spell, String.append_assoc]

theorem Variable.text_of_none {v : Variable} (h : v.id = none) : v.text = spell v.name := by
  rw [Variable.text, h]

def Variable.Apart (v w : Variable) : Prop :=
  v.id = none → ∀ id, w.id = some id → v.name ≠ w.name ++ "_" ++ Text.decimal id

theorem Variable.eq_of_text_eq {v w : Variable} (h : v.text = w.text) (hvw : v.Apart w)
    (hwv : w.Apart v) : v = w := by
  cases hv : v.id with
  | none =>
    rw [text_of_none hv] at h
    cases hw : w.id with
    | none =>
      rw [text_of_none hw] at h
      rw [Variable.mk.injEq, hv, hw]
      exact ⟨spell_injective h, rfl⟩
    | some n =>
      rw [text_eq_spell hw] at h
      exact absurd (spell_injective h) (hvw hv n hw)
  | some m =>
    rw [text_eq_spell hv] at h
    cases hw : w.id with
    | none =>
      rw [text_of_none hw] at h
      exact absurd (spell_injective h).symm (hwv hw m hv)
    | some n =>
      rw [text_eq_spell hw] at h
      obtain ⟨hname, hid⟩ := Text.append_decimal_injective (spell_injective h)
      rw [Variable.mk.injEq, hv, hw, hid]
      exact ⟨hname, rfl⟩

end Script

/-- The text of an identifier in a script: its name, and its id if this is one of `ids`. -/
def Identifier.written (ids : List Nat) (x : Identifier) : String :=
  match x.id.filter (· ∈ ids) with
  | some id => "FUN_" ++ x.name ++ "_" ++ Text.decimal id
  | none => "FUN_" ++ x.name

theorem Identifier.text_variable (x : Identifier) (ids : List Nat) :
    (x.variable ids).text = x.written ids :=
  rfl

theorem Prelude.ne_append_decimal {builtin : String} (h : builtin ∈ builtins) (name : String)
    (id : Nat) : builtin ≠ name ++ "_" ++ Text.decimal id := by
  intro heq
  -- The number ends in a digit, and no builtin does.
  have hlast : ∀ builtin ∈ builtins, builtin.toList.getLast?.all (!·.isDigit) := by
    decide
  have hne : (Text.decimal id).toList ≠ [] := by
    rw [Text.decimal, String.toList_ofList]
    exact Nat.toDigits_ne_nil
  have hgetLast : builtin.toList.getLast? = some ((Text.decimal id).toList.getLast hne) := by
    rw [heq, String.toList_append, List.getLast?_append, List.getLast?_eq_some_getLast hne]
    rfl
  have hbuiltin := hlast builtin h
  rw [hgetLast, Option.all_some, Text.isDigit_of_mem_decimal (List.getLast_mem hne)] at hbuiltin
  cases hbuiltin

end LiterateFun
