import LiterateFun.Proofs.Parsing.Recognition
import LiterateFun.Proofs.Scanning
import LiterateFun.Program.Occurrences

/-!
This module contains the identifiers of parsed programs. They are not resolved, and their names are
words of the source.
-/

namespace LiterateFun

def Denoted (ts : List Token) (xs : List Identifier) : Prop :=
  ∀ x ∈ xs, ∃ t ∈ ts, t.Denotes x

namespace TokenKind

def names : List TokenKind → List String
  | [] => []
  | .identifier name :: kinds => name :: names kinds
  | .symbol .backslash :: _ :: kinds => names kinds
  | _ :: kinds => names kinds

def isPlain : TokenKind → Bool
  | .identifier _ | .symbol .backslash => false
  | _ => true

theorem names_of_isPlain {kind : TokenKind} (h : kind.isPlain) (kinds : List TokenKind) :
    names (kind :: kinds) = names kinds := by
  rw [names]
  · rintro name rfl
    cases h
  · rintro _ _ rfl
    cases h

theorem isPlain_of_operator {s : Symbol} {op : Operator} (h : s.text = op.text.toList) :
    (TokenKind.symbol s).isPlain := by
  cases s with
  | backslash => cases op <;> cases h
  | _ => rfl

end TokenKind

/--
The identifiers are denoted by tokens in the same order, and the other tokens have no names of their
own, whatever comes after them.
-/
structure DenotedInOrder (ts : List Token) (xs : List Identifier) : Prop where
  tokens : ∃ us, us.Sublist ts ∧ List.Forall₂ Token.Denotes us xs
  names : ∀ rest, TokenKind.names (ts.map (·.kind) ++ rest) =
    xs.map (·.name) ++ TokenKind.names rest

namespace DenotedInOrder

variable {ts ts₁ ts₂ : List Token} {xs xs₁ xs₂ : List Identifier} {t t₁ t₂ : Token}
  {kind kind₁ kind₂ : TokenKind}

theorem nil : DenotedInOrder [] [] :=
  ⟨⟨[], .slnil, .nil⟩, fun _ => rfl⟩

theorem singleton {x : Identifier} (h : t.Denotes x) : DenotedInOrder [t] [x] := by
  refine ⟨⟨[t], .refl _, .cons h .nil⟩, fun rest => ?_⟩
  simp [h.1, TokenKind.names]

theorem append (h₁ : DenotedInOrder ts₁ xs₁) (h₂ : DenotedInOrder ts₂ xs₂) :
    DenotedInOrder (ts₁ ++ ts₂) (xs₁ ++ xs₂) := by
  obtain ⟨us₁, hts₁, hxs₁⟩ := h₁.tokens
  obtain ⟨us₂, hts₂, hxs₂⟩ := h₂.tokens
  refine ⟨⟨us₁ ++ us₂, hts₁.append hts₂, List.rel_append hxs₁ hxs₂⟩, fun rest => ?_⟩
  rw [List.map_append, List.append_assoc, h₁.names, h₂.names, List.map_append, List.append_assoc]

theorem cons (h : DenotedInOrder ts xs) (ht : t.kind = kind) (hkind : kind.isPlain) :
    DenotedInOrder (t :: ts) xs := by
  obtain ⟨us, hts, hxs⟩ := h.tokens
  refine ⟨⟨us, hts.cons t, hxs⟩, fun rest => ?_⟩
  rw [List.map_cons, List.cons_append, ht, TokenKind.names_of_isPlain hkind, h.names]

theorem snoc (h : DenotedInOrder ts xs) (ht : t.kind = kind) (hkind : kind.isPlain) :
    DenotedInOrder (ts ++ [t]) xs := by
  have := h.append (nil.cons ht hkind)
  rwa [List.append_nil] at this

theorem between (h : DenotedInOrder ts xs) (ht₁ : t₁.kind = kind₁) (hkind₁ : kind₁.isPlain)
    (ht₂ : t₂.kind = kind₂) (hkind₂ : kind₂.isPlain) :
    DenotedInOrder (t₁ :: (ts ++ [t₂])) xs :=
  (h.snoc ht₂ hkind₂).cons ht₁ hkind₁

theorem marked (h : DenotedInOrder ts xs) (ht : t.kind = .symbol .backslash) (t' : Token) :
    DenotedInOrder (t :: t' :: ts) xs := by
  obtain ⟨us, hts, hxs⟩ := h.tokens
  refine ⟨⟨us, (hts.cons t').cons t, hxs⟩, fun rest => ?_⟩
  rw [List.map_cons, List.map_cons, List.cons_append, List.cons_append, ht, TokenKind.names,
    h.names]

theorem denoted (h : DenotedInOrder ts xs) : Denoted ts xs := by
  obtain ⟨us, hts, hxs⟩ := h.tokens
  clear h
  induction hxs with
  | nil => exact nofun
  | cons h _ ih =>
    intro y hy
    rcases List.mem_cons.1 hy with rfl | hy
    · exact ⟨_, hts.subset (.head _), h⟩
    · exact ih (List.sublist_of_cons_sublist hts) y hy

end DenotedInOrder

namespace Grammar

mutual

theorem IsExpression.inOrder {ts : List Token} {e : Expr} (h : IsExpression ts e) :
    DenotedInOrder ts e.identifiers := by
  match h with
  | .binary h => exact h.inOrder
  | .assign hx ht hvalue => exact hx.inOrder.append (hvalue.inOrder.cons ht rfl)
  | .declare hx ht hvalue => exact hx.inOrder.append (hvalue.inOrder.cons ht rfl)

theorem IsBinary.inOrder {ts : List Token} {e : Expr} (h : IsBinary ts e) :
    DenotedInOrder ts e.identifiers := by
  match h with
  | .postfixed h => exact h.inOrder
  | .operation hleft ht hop hright =>
    exact hleft.inOrder.append (hright.inOrder.cons ht (TokenKind.isPlain_of_operator hop))

theorem IsPostfixed.inOrder {ts : List Token} {e : Expr} (h : IsPostfixed ts e) :
    DenotedInOrder ts e.identifiers := by
  match h with
  | .primary h => exact h.inOrder
  | .call hcallee hopen hargs hclose =>
    exact hcallee.inOrder.append (hargs.inOrder.between hopen rfl hclose rfl)

theorem IsArguments.inOrder {ts : List Token} {es : List Expr} (h : IsArguments ts es) :
    DenotedInOrder ts (Expr.identifiersList es) := by
  match h with
  | .none => exact .nil
  | .some h => exact h.inOrder

theorem IsSomeArguments.inOrder {ts : List Token} {es : List Expr} (h : IsSomeArguments ts es) :
    DenotedInOrder ts (Expr.identifiersList es) := by
  match h with
  | .last h =>
    rw [Expr.identifiersList, Expr.identifiersList, List.append_nil]
    exact h.inOrder
  | .cons he ht hes => exact he.inOrder.append (hes.inOrder.cons ht rfl)

theorem IsPrimary.inOrder {ts : List Token} {e : Expr} (h : IsPrimary ts e) :
    DenotedInOrder ts e.identifiers := by
  match h with
  | .string h => exact DenotedInOrder.nil.cons h rfl
  | .number h => exact DenotedInOrder.nil.cons h rfl
  | .identifier h => exact .singleton h
  | .parens hopen h hclose => exact h.inOrder.between hopen rfl hclose rfl

end

theorem IsSomeParameters.inOrder {ts : List Token} {xs : List Identifier}
    (h : IsSomeParameters ts xs) : DenotedInOrder ts xs := by
  induction h with
  | last h => exact .singleton h
  | cons h ht _ ih => exact (DenotedInOrder.singleton h).append (ih.cons ht rfl)

theorem IsParameters.inOrder {ts : List Token} {xs : List Identifier} (h : IsParameters ts xs) :
    DenotedInOrder ts xs := by
  cases h with
  | none hopen hclose => exact DenotedInOrder.nil.between hopen rfl hclose rfl
  | some hopen h hclose => exact h.inOrder.between hopen rfl hclose rfl

theorem IsName.inOrder {ts : List Token} {x : Identifier} (h : IsName ts x) :
    DenotedInOrder ts [x] := by
  cases h with
  | mk hopen h hclose => exact (DenotedInOrder.singleton h).between hopen rfl hclose rfl

theorem IsMethodName.inOrder {ts : List Token} {owner name : Identifier}
    (h : IsMethodName ts owner name) : DenotedInOrder ts [owner, name] := by
  cases h with
  | mk hopen howner hcolon hname hclose =>
    have howner := DenotedInOrder.singleton howner
    have hname := DenotedInOrder.singleton hname
    exact (howner.append (hname.cons hcolon rfl)).between hopen rfl hclose rfl

mutual

theorem IsBlock.inOrder {ts : List Token} {b : Block} (h : IsBlock ts b) :
    DenotedInOrder ts (blockIdentifiers b) := by
  match h with
  | .nil => exact .nil
  | .cons hs hb => exact hs.inOrder.append hb.inOrder

theorem IsBraced.inOrder {ts : List Token} {b : Block} (h : IsBraced ts b) :
    DenotedInOrder ts (blockIdentifiers b) := by
  match h with
  | .mk hopen hb hclose => exact hb.inOrder.between hopen rfl hclose rfl

theorem IsStatement.inOrder {ts : List Token} {s : Statement} (h : IsStatement ts s) :
    DenotedInOrder ts s.identifiers := by
  match h with
  | .conditional ht h => exact h.inOrder.cons ht rfl
  | .declaration ht h => exact h.inOrder ht
  | .return ht h hclose => exact h.inOrder.between ht rfl hclose rfl
  | .expression h hclose => exact h.inOrder.snoc hclose rfl

theorem IsConditional.inOrder {ts : List Token} {s : Statement} (h : IsConditional ts s) :
    DenotedInOrder ts s.identifiers := by
  match h with
  | .plain hcondition hconsequent => exact hcondition.inOrder.append hconsequent.inOrder
  | .otherwise hcondition hconsequent ht halternative =>
    rw [Statement.identifiers, List.append_assoc]
    exact hcondition.inOrder.append
      (hconsequent.inOrder.append (halternative.inOrder.cons ht rfl))
  | .elseIf hcondition hconsequent helse hif h =>
    rw [Statement.identifiers, blockIdentifiers, blockIdentifiers, List.append_nil,
      List.append_assoc]
    exact hcondition.inOrder.append
      (hconsequent.inOrder.append ((h.inOrder.cons hif rfl).cons helse rfl))

theorem IsDeclaration.inOrder {ts : List Token} {d : Declaration} (h : IsDeclaration ts d)
    {t : Token} (ht : t.kind = .symbol .backslash) : DenotedInOrder (t :: ts) d.identifiers := by
  match h with
  | .class _ hname hbody => exact (hname.inOrder.append hbody.inOrder).marked ht _
  | .function _ hname hxs hbody =>
    exact (hname.inOrder.append (hxs.inOrder.append hbody.inOrder)).marked ht _
  | .method _ hname hxs hbody =>
    exact (hname.inOrder.append (hxs.inOrder.append hbody.inOrder)).marked ht _

end

theorem IsBlock.denoted {ts : List Token} {b : Block} (h : IsBlock ts b) :
    Denoted ts (blockIdentifiers b) :=
  h.inOrder.denoted

theorem IsDeclaration.denoted {ts : List Token} {d : Declaration} (h : IsDeclaration ts d)
    {t : Token} (ht : t.kind = .symbol .backslash) : Denoted ts d.identifiers := by
  intro x hx
  obtain ⟨u, hu, hdenotes⟩ := (h.inOrder ht).denoted x hx
  rcases List.mem_cons.1 hu with rfl | hu
  · cases ht.symm.trans hdenotes.1
  · exact ⟨u, hu, hdenotes⟩

end Grammar

def IsWord (name : String) : Prop :=
  ∀ c ∈ name.toList, Token.isWordRest c

namespace Token

theorem isWord_of_wordKind {text : List Char} {name : String}
    (h : wordKind (String.ofList (text.takeWhile isWordRest)) = .identifier name) :
    IsWord name := by
  unfold wordKind at h
  split at h
  · cases h
  · cases h
    intro c hc
    rw [String.toList_ofList] at hc
    exact List.all_eq_true.1 List.all_takeWhile c hc

theorem readNumber_ne_identifier (text : List Char) (name : String) :
    (readNumber text).value ≠ .identifier name := by
  rcases readNumber_cases text with ⟨_, h⟩ | ⟨_, h⟩ <;> rw [h] <;> nofun

theorem isWord_of_read {c : Char} {text : List Char} {name : String}
    (h : (read c text).value = .identifier name) : IsWord name := by
  unfold read at h
  split at h
  · cases h
  · split at h
    · simp only [Reading.precededBy, Reading.map, stringKind] at h
      split at h <;> cases h
    · split at h
      · exact absurd h (readNumber_ne_identifier _ _)
      · split at h
        · exact isWord_of_wordKind h
        · cases h

theorem isWord_of_mem_scan {p : Position} {text : List Char} {t : Token} (ht : t ∈ scan p text)
    {name : String} (h : t.kind = .identifier name) : IsWord name := by
  fun_induction scan p text with
  | case1 =>
    rw [List.mem_singleton.1 ht] at h
    cases h
  | case2 p text _ c rest _ _ ih =>
    rcases List.mem_cons.1 ht with rfl | ht
    · exact isWord_of_read h
    · exact ih ht

end Token

theorem Block.identifiers_of_ofSource {source : String} {b : Block}
    (h : Block.ofSource source = .ok b) {x : Identifier} (hx : x ∈ blockIdentifiers b) :
    x.id = none ∧ IsWord x.name := by
  obtain ⟨rest, hreads, -⟩ := Block.parse_eq_ok_iff.1 h
  obtain ⟨taken, heq, hb⟩ := Grammar.takes_block _ hreads
  obtain ⟨t, ht, hdenotes⟩ := hb.denoted x hx
  have hmem : t ∈ Token.ofSource source := by
    rw [heq]
    exact List.mem_append_left _ ht
  exact ⟨by rw [hdenotes.2], Token.isWord_of_mem_scan hmem hdenotes.1⟩

end LiterateFun
