import LiterateFun.Program.Print
import LiterateFun.Proofs.Printing.Literals
import LiterateFun.Proofs.Subexpressions

/-!
This module contains the tokens of printed programs. The printed text of a program is divided into
them.
-/

namespace LiterateFun

def Operator.symbol : Operator → Symbol
  | .add => .plus
  | .subtract => .minus
  | .multiply => .star
  | .divide => .slash

theorem Operator.toList_text (op : Operator) : op.text.toList = op.symbol.text := by
  cases op <;> rfl

def enclosed (opening closing : Symbol) (tokens : List TokenKind) : List TokenKind :=
  .symbol opening :: (tokens ++ [.symbol closing])

def parenTokens (tokens : List TokenKind) : List TokenKind :=
  enclosed .leftParen .rightParen tokens

def braceTokens (tokens : List TokenKind) : List TokenKind :=
  enclosed .leftBrace .rightBrace tokens

def separated (items : List (List TokenKind)) : List TokenKind :=
  [.symbol .comma].intercalate items

def Identifier.token (x : Identifier) : TokenKind :=
  .identifier x.name

mutual

def Expr.tokens : Expr → List TokenKind
  | .string value => parenTokens [.string value]
  | .number value => parenTokens [.number value]
  | .identifier x => parenTokens [x.token]
  | .binary op left right => parenTokens (left.tokens ++ .symbol op.symbol :: right.tokens)
  | .call callee arguments =>
    parenTokens (callee.tokens ++ parenTokens (separated (Expr.tokensEach arguments)))
  | .assign target value => parenTokens (target.tokens ++ .symbol .equal :: value.tokens)
  | .declare x value => parenTokens (x.token :: .symbol .colonEqual :: value.tokens)

def Expr.tokensEach : List Expr → List (List TokenKind)
  | [] => []
  | e :: es => e.tokens :: Expr.tokensEach es

end

def parameterTokens (parameters : List Identifier) : List TokenKind :=
  braceTokens (separated (parameters.map fun x => [x.token]))

mutual

def Statement.tokens : Statement → List TokenKind
  | .expression value => value.tokens ++ [.symbol .semicolon]
  | .return value => .keyword .return :: (value.tokens ++ [.symbol .semicolon])
  | .conditional condition consequent none =>
    .keyword .if :: (condition.tokens ++ braceTokens (blockTokens consequent))
  | .conditional condition consequent (some alternative) =>
    .keyword .if :: (condition.tokens ++ (braceTokens (blockTokens consequent)
      ++ .keyword .else :: braceTokens (blockTokens alternative)))
  | .declaration d => d.tokens

def Declaration.tokens : Declaration → List TokenKind
  | .class name body =>
    .symbol .backslash :: .identifier "class" ::
      (braceTokens [name.token] ++ braceTokens (blockTokens body))
  | .function name parameters body =>
    .symbol .backslash :: .identifier "fun" ::
      (braceTokens [name.token] ++ (parameterTokens parameters ++ braceTokens (blockTokens body)))
  | .method owner name parameters body =>
    .symbol .backslash :: .identifier "fun" ::
      (braceTokens [owner.token, .symbol .colonColon, name.token] ++ (parameterTokens parameters
        ++ braceTokens (blockTokens body)))

def blockTokens : List Statement → List TokenKind
  | [] => []
  | s :: b => s.tokens ++ blockTokens b

end

/--
The identifiers and the expressions of a program are such that a source may contain their printed
form: names are unresolved, and strings and numbers are read as they are printed.
-/
structure Writable (xs : List Identifier) (es : List Expr) : Prop where
  unresolved : ∀ x ∈ xs, x.id = none
  isName : ∀ x ∈ xs, isName x.name
  assignable : Assignable es
  isQuotable : ∀ value, .string value ∈ es → ∀ c ∈ value.toList, Text.isQuotable c
  readsBack : ∀ value, .number value ∈ es →
    (Token.ofSource value.text).map Token.kind = [.number value, .endOfInput]

theorem Writable.mono {xs xs' : List Identifier} {es es' : List Expr} (h : Writable xs es)
    (hxs : xs' ⊆ xs) (hes : es' ⊆ es) : Writable xs' es' where
  unresolved x hx := h.unresolved x (hxs hx)
  isName x hx := h.isName x (hxs hx)
  assignable target value hmem := h.assignable target value (hes hmem)
  isQuotable value hmem := h.isQuotable value (hes hmem)
  readsBack value hmem := h.readsBack value (hes hmem)

theorem Writable.scansApart_print {xs : List Identifier} {es : List Expr} (h : Writable xs es)
    {x : Identifier} (hx : x ∈ xs) : Token.ScansApart x.print.toList [x.token] := by
  unfold Identifier.print
  rw [h.unresolved x hx]
  exact scansApart_name (h.isName x hx)

theorem Token.ScansApart.parens {text : List Char} {tokens : List TokenKind}
    (h : ScansApart text tokens) : Scans ('(' :: (text ++ [')'])) (parenTokens tokens) := by
  apply Scans.symbol_cons .leftParen rfl rfl
  apply h.append rfl
  exact scans_nil.symbol_cons .rightParen rfl rfl

theorem Token.ScansApart.braces {text : List Char} {tokens : List TokenKind}
    (h : ScansApart text tokens) :
    Scans ('\x7b' :: (text ++ ['\x7d'])) (braceTokens tokens) := by
  apply Scans.symbol_cons .leftBrace rfl rfl
  apply h.append rfl
  exact scans_nil.symbol_cons .rightBrace rfl rfl

open Token

mutual

theorem Expr.scans_print (e : Expr) (h : Writable e.identifiers e.subexpressions) :
    Scans e.print.toList e.tokens := by
  match e with
  | .string value =>
    have hquote := (Text.scans_quote (h.isQuotable value (by simp [Expr.subexpressions]))).apart
    have htext : (Expr.string value).print.toList =
        '(' :: ((Text.quote value).toList ++ [')']) := by
      simp [Expr.print]
    rw [htext]
    exact hquote.parens
  | .number value =>
    have hnumber := Number.scansApart_text (h.readsBack value (by simp [Expr.subexpressions]))
    have htext : (Expr.number value).print.toList = '(' :: (value.text.toList ++ [')']) := by
      simp [Expr.print]
    rw [htext]
    exact hnumber.parens
  | .identifier x =>
    have hname := h.scansApart_print (x := x) (by simp [Expr.identifiers])
    have htext : (Expr.identifier x).print.toList = '(' :: (x.print.toList ++ [')']) := by
      simp [Expr.print]
    rw [htext]
    exact hname.parens
  | .binary op left right =>
    have hleft := Expr.scans_print left (h.mono (by simp [Expr.identifiers])
      (by simp [Expr.subexpressions]))
    have hright := Expr.scans_print right (h.mono (by simp [Expr.identifiers])
      (by simp [Expr.subexpressions]))
    have htext : (Expr.binary op left right).print.toList =
        '(' :: ((left.print.toList ++ ' ' :: (op.symbol.text ++ ' ' :: right.print.toList))
          ++ [')']) := by
      simp [Expr.print, Operator.toList_text]
    rw [htext]
    apply ScansApart.parens
    apply Scans.apart
    apply hleft.append
    apply Scans.blank rfl
    exact hright.symbol_blank op.symbol
  | .call callee arguments =>
    have hcallee := Expr.scans_print callee (h.mono (by simp [Expr.identifiers])
      (by simp [Expr.subexpressions]))
    have harguments := ScansApart.intercalate (Expr.scansApart_printEach arguments
      (h.mono (by simp [Expr.identifiers]) (by simp [Expr.subexpressions])))
    have htext : (Expr.call callee arguments).print.toList =
        '(' :: ((callee.print.toList ++
          '(' :: ([',', ' '].intercalate ((Expr.printEach arguments).map String.toList) ++ [')']))
            ++ [')']) := by
      simp [Expr.print, String.toList_intercalate]
    rw [htext]
    apply ScansApart.parens
    apply Scans.apart
    apply hcallee.append
    exact harguments.parens
  | .assign target value =>
    have htarget := Expr.scans_print target (h.mono (by simp [Expr.identifiers])
      (by simp [Expr.subexpressions]))
    have hvalue := Expr.scans_print value (h.mono (by simp [Expr.identifiers])
      (by simp [Expr.subexpressions]))
    have htext : (Expr.assign target value).print.toList =
        '(' :: ((target.print.toList ++ ' ' :: '=' :: ' ' :: value.print.toList) ++ [')']) := by
      simp [Expr.print]
    rw [htext]
    apply ScansApart.parens
    apply Scans.apart
    apply htarget.append
    apply Scans.blank rfl
    exact hvalue.symbol_blank .equal
  | .declare x value =>
    have hname := h.scansApart_print (x := x) (by simp [Expr.identifiers])
    have hvalue := Expr.scans_print value (h.mono (by simp [Expr.identifiers])
      (by simp [Expr.subexpressions]))
    have htext : (Expr.declare x value).print.toList =
        '(' :: ((x.print.toList ++ ' ' :: ':' :: '=' :: ' ' :: value.print.toList) ++ [')']) := by
      simp [Expr.print]
    rw [htext]
    apply ScansApart.parens
    apply Scans.apart
    apply hname.append rfl
    apply Scans.blank rfl
    exact hvalue.symbol_blank .colonEqual

theorem Expr.scansApart_printEach (es : List Expr)
    (h : Writable (Expr.identifiersList es) (Expr.subexpressionsList es)) :
    List.Forall₂ ScansApart ((Expr.printEach es).map String.toList) (Expr.tokensEach es) := by
  match es with
  | [] => exact .nil
  | e :: es =>
    have he := Expr.scans_print e (h.mono (by simp [Expr.identifiersList])
      (by simp [Expr.subexpressionsList]))
    have hes := Expr.scansApart_printEach es (h.mono (by simp [Expr.identifiersList])
      (by simp [Expr.subexpressionsList]))
    exact .cons he.apart hes

end

theorem scansApart_keyword (k : Keyword) : ScansApart k.text.toList [.keyword k] := by
  cases k <;> exact scansApart_word rfl rfl

theorem Token.Scans.indented {text : List Char} {tokens : List TokenKind} (depth : Nat)
    (h : Scans text tokens) : Scans ((indentation depth).toList ++ text) tokens := by
  rw [indentation, String.toList_ofList]
  generalize 4 * depth = n
  induction n with
  | zero => exact h
  | succ n ih => exact ih.blank rfl

theorem Token.Scans.braced {lines : String} {tokens : List TokenKind} (depth : Nat)
    (h : Scans lines.toList tokens) :
    Scans (printBraced depth lines).toList (braceTokens tokens) := by
  have htext : (printBraced depth lines).toList =
      '\x7b' :: ('\n' :: (lines.toList ++ (indentation depth).toList) ++ ['\x7d']) := by
    simp [printBraced]
  have hlines := h.append (scans_nil.indented depth)
  rw [List.append_nil, List.append_nil] at hlines
  rw [htext]
  apply ScansApart.braces
  apply Scans.apart
  exact hlines.blank rfl

theorem scans_declaration {word : String} {text : List Char} {tokens : List TokenKind}
    (hword : isName word) (h : Scans ('\x7b' :: text) tokens) :
    Scans ('\\' :: (word.toList ++ '\x7b' :: text))
      (.symbol .backslash :: .identifier word :: tokens) := by
  apply Scans.symbol_cons .backslash rfl rfl
  exact (scansApart_name hword).append rfl h

theorem scans_printParameters {parameters : List Identifier} {es : List Expr}
    (h : Writable parameters es) :
    Scans (printParameters parameters).toList (parameterTokens parameters) := by
  have heach : List.Forall₂ ScansApart (parameters.map fun x => x.print.toList)
      (parameters.map fun x => [x.token]) := by
    rw [List.forall₂_map_left_iff, List.forall₂_map_right_iff, List.forall₂_same]
    intro x hx
    exact h.scansApart_print hx
  have htext : (printParameters parameters).toList =
      '\x7b' :: ([',', ' '].intercalate (parameters.map fun x => x.print.toList) ++ ['\x7d']) := by
    simp [printParameters, String.toList_intercalate, Function.comp_def]
  rw [htext]
  exact (ScansApart.intercalate heach).braces

mutual

theorem Statement.scans_print (depth : Nat) (s : Statement)
    (h : Writable s.identifiers s.subexpressions) : Scans (s.print depth).toList s.tokens := by
  match s with
  | .expression value =>
    have hvalue := Expr.scans_print value h
    have htext : ((Statement.expression value).print depth).toList =
        value.print.toList ++ [';'] := by
      simp [Statement.print]
    rw [htext]
    apply hvalue.append
    exact Scans.symbol_cons .semicolon rfl rfl scans_nil
  | .return value =>
    have hvalue := Expr.scans_print value h
    have htext : ((Statement.return value).print depth).toList =
        Keyword.return.text.toList ++ ' ' :: (value.print.toList ++ [';']) := by
      simp [Statement.print, Keyword.text]
    rw [htext]
    apply (scansApart_keyword .return).append rfl
    apply Scans.blank rfl
    apply hvalue.append
    exact Scans.symbol_cons .semicolon rfl rfl scans_nil
  | .conditional condition consequent none =>
    have hcondition := Expr.scans_print condition (h.mono (by simp [Statement.identifiers])
      (by simp [Statement.subexpressions]))
    have hconsequent := scans_printBlock (depth + 1) consequent
      (h.mono (by simp [Statement.identifiers]) (by simp [Statement.subexpressions]))
    have htext : ((Statement.conditional condition consequent none).print depth).toList =
        Keyword.if.text.toList ++ ' ' :: (condition.print.toList ++
          ' ' :: (printBraced depth (printBlock (depth + 1) consequent)).toList) := by
      simp [Statement.print, Keyword.text]
    rw [htext]
    apply (scansApart_keyword .if).append rfl
    apply Scans.blank rfl
    apply hcondition.append
    apply Scans.blank rfl
    exact hconsequent.braced depth
  | .conditional condition consequent (some alternative) =>
    have hcondition := Expr.scans_print condition (h.mono (by simp [Statement.identifiers])
      (by simp [Statement.subexpressions]))
    have hconsequent := scans_printBlock (depth + 1) consequent
      (h.mono (by simp [Statement.identifiers]) (by simp [Statement.subexpressions]))
    have halternative := scans_printBlock (depth + 1) alternative
      (h.mono (by simp [Statement.identifiers]) (by simp [Statement.subexpressions]))
    have htext :
        ((Statement.conditional condition consequent (some alternative)).print depth).toList =
          Keyword.if.text.toList ++ ' ' :: (condition.print.toList ++
            ' ' :: ((printBraced depth (printBlock (depth + 1) consequent)).toList ++
              ' ' :: (Keyword.else.text.toList ++
                ' ' :: (printBraced depth (printBlock (depth + 1) alternative)).toList))) := by
      simp [Statement.print, Keyword.text]
    rw [htext]
    apply (scansApart_keyword .if).append rfl
    apply Scans.blank rfl
    apply hcondition.append
    apply Scans.blank rfl
    apply (hconsequent.braced depth).append
    apply Scans.blank rfl
    apply (scansApart_keyword .else).append rfl
    apply Scans.blank rfl
    exact halternative.braced depth
  | .declaration d =>
    exact Declaration.scans_print depth d h

theorem Declaration.scans_print (depth : Nat) (d : Declaration)
    (h : Writable d.identifiers d.subexpressions) : Scans (d.print depth).toList d.tokens := by
  match d with
  | .class name body =>
    have hname := (h.scansApart_print (x := name) (by simp [Declaration.identifiers])).braces
    have hbody := scans_printBlock (depth + 1) body
      (h.mono (by simp [Declaration.identifiers]) (by simp [Declaration.subexpressions]))
    have htext : ((Declaration.class name body).print depth).toList =
        '\\' :: ("class".toList ++ '\x7b' :: (name.print.toList ++ ['\x7d'] ++
          (printBraced depth (printBlock (depth + 1) body)).toList)) := by
      simp [Declaration.print]
    rw [htext]
    apply scans_declaration rfl
    exact hname.append (hbody.braced depth)
  | .function name parameters body =>
    have hname := (h.scansApart_print (x := name) (by simp [Declaration.identifiers])).braces
    have hparameters : Scans (printParameters parameters).toList (parameterTokens parameters) :=
      scans_printParameters (h.mono (by simp [Declaration.identifiers]) (List.Subset.refl _))
    have hbody := scans_printBlock (depth + 1) body
      (h.mono (by simp [Declaration.identifiers]) (by simp [Declaration.subexpressions]))
    have htext : ((Declaration.function name parameters body).print depth).toList =
        '\\' :: ("fun".toList ++ '\x7b' :: (name.print.toList ++ ['\x7d'] ++
          ((printParameters parameters).toList ++
            (printBraced depth (printBlock (depth + 1) body)).toList))) := by
      simp [Declaration.print]
    rw [htext]
    apply scans_declaration rfl
    apply hname.append
    exact hparameters.append (hbody.braced depth)
  | .method owner name parameters body =>
    have howner := h.scansApart_print (x := owner) (by simp [Declaration.identifiers])
    have hname := h.scansApart_print (x := name) (by simp [Declaration.identifiers])
    have hparameters : Scans (printParameters parameters).toList (parameterTokens parameters) :=
      scans_printParameters (h.mono (fun x hx => by simp [Declaration.identifiers, hx])
        (List.Subset.refl _))
    have hbody := scans_printBlock (depth + 1) body
      (h.mono (fun x hx => by simp [Declaration.identifiers, hx])
        (by simp [Declaration.subexpressions]))
    have htext : ((Declaration.method owner name parameters body).print depth).toList =
        '\\' :: ("fun".toList ++ '\x7b' :: (owner.print.toList ++ ':' :: ':' :: (name.print.toList
          ++ '\x7d' :: ((printParameters parameters).toList ++
            (printBraced depth (printBlock (depth + 1) body)).toList)))) := by
      simp [Declaration.print]
    rw [htext]
    apply scans_declaration rfl
    apply Scans.symbol_cons .leftBrace rfl rfl
    apply howner.append rfl
    apply Scans.symbol .colonColon rfl
    apply hname.append rfl
    apply Scans.symbol_cons .rightBrace rfl rfl
    exact hparameters.append (hbody.braced depth)

theorem scans_printBlock (depth : Nat) (b : List Statement)
    (h : Writable (blockIdentifiers b) (blockSubexpressions b)) :
    Scans (printBlock depth b).toList (blockTokens b) := by
  match b with
  | [] => exact scans_nil
  | s :: b =>
    have hs := Statement.scans_print depth s (h.mono (by simp [blockIdentifiers])
      (by simp [blockSubexpressions]))
    have hb := scans_printBlock depth b (h.mono (by simp [blockIdentifiers])
      (by simp [blockSubexpressions]))
    have htext : (printBlock depth (s :: b)).toList =
        (indentation depth).toList ++
          ((s.print depth).toList ++ '\n' :: (printBlock depth b).toList) := by
      simp [printBlock]
    rw [htext]
    apply Scans.indented
    apply hs.append
    exact hb.blank rfl

end

theorem Expr.exists_tokens_eq (e : Expr) : ∃ kinds, e.tokens = parenTokens kinds := by
  cases e <;> exact ⟨_, rfl⟩

theorem separated_singleton (item : List TokenKind) : separated [item] = item := by
  simp [separated]

theorem separated_cons_cons (item₁ item₂ : List TokenKind) (items : List (List TokenKind)) :
    separated (item₁ :: item₂ :: items) =
      item₁ ++ .symbol .comma :: separated (item₂ :: items) := by
  simp [separated, List.intercalate_cons_cons]

end LiterateFun
