import LiterateFun.Proofs.Parsing.Names
import LiterateFun.Proofs.Subexpressions

/-!
This module contains the assignments of parsed programs: all of them are to identifiers.
-/

namespace LiterateFun

namespace Grammar

mutual

theorem IsExpression.assignable {ts : List Token} {e : Expr} (h : IsExpression ts e) :
    Assignable e.subexpressions := by
  match h with
  | .binary h => exact h.assignable
  | .assign hx _ hvalue =>
    exact assignable_assign.2 (assignable_append.2 ⟨hx.assignable, hvalue.assignable⟩)
  | .declare _ _ hvalue => exact (assignable_cons (by nofun)).2 hvalue.assignable

theorem IsBinary.assignable {ts : List Token} {e : Expr} (h : IsBinary ts e) :
    Assignable e.subexpressions := by
  match h with
  | .postfixed h => exact h.assignable
  | .operation hleft _ _ hright =>
    apply (assignable_cons (by nofun)).2
    exact assignable_append.2 ⟨hleft.assignable, hright.assignable⟩

theorem IsPostfixed.assignable {ts : List Token} {e : Expr} (h : IsPostfixed ts e) :
    Assignable e.subexpressions := by
  match h with
  | .primary h => exact h.assignable
  | .call hcallee _ hargs _ =>
    apply (assignable_cons (by nofun)).2
    exact assignable_append.2 ⟨hcallee.assignable, hargs.assignable⟩

theorem IsArguments.assignable {ts : List Token} {es : List Expr} (h : IsArguments ts es) :
    Assignable (Expr.subexpressionsList es) := by
  match h with
  | .none => exact assignable_nil
  | .some h => exact h.assignable

theorem IsSomeArguments.assignable {ts : List Token} {es : List Expr}
    (h : IsSomeArguments ts es) : Assignable (Expr.subexpressionsList es) := by
  match h with
  | .last h => exact assignable_append.2 ⟨h.assignable, assignable_nil⟩
  | .cons he _ hes => exact assignable_append.2 ⟨he.assignable, hes.assignable⟩

theorem IsPrimary.assignable {ts : List Token} {e : Expr} (h : IsPrimary ts e) :
    Assignable e.subexpressions := by
  match h with
  | .string _ => exact (assignable_cons (by nofun)).2 assignable_nil
  | .number _ => exact (assignable_cons (by nofun)).2 assignable_nil
  | .identifier _ => exact (assignable_cons (by nofun)).2 assignable_nil
  | .parens _ h _ => exact h.assignable

end

mutual

theorem IsBlock.assignable {ts : List Token} {b : Block} (h : IsBlock ts b) :
    Assignable (blockSubexpressions b) := by
  match h with
  | .nil => exact assignable_nil
  | .cons hs hb => exact assignable_append.2 ⟨hs.assignable, hb.assignable⟩

theorem IsBraced.assignable {ts : List Token} {b : Block} (h : IsBraced ts b) :
    Assignable (blockSubexpressions b) := by
  match h with
  | .mk _ hb _ => exact hb.assignable

theorem IsStatement.assignable {ts : List Token} {s : Statement} (h : IsStatement ts s) :
    Assignable s.subexpressions := by
  match h with
  | .conditional _ h => exact h.assignable
  | .declaration _ h => exact h.assignable
  | .return _ h _ => exact h.assignable
  | .expression h _ => exact h.assignable

theorem IsConditional.assignable {ts : List Token} {s : Statement} (h : IsConditional ts s) :
    Assignable s.subexpressions := by
  match h with
  | .plain hcondition hconsequent =>
    exact assignable_append.2 ⟨hcondition.assignable, hconsequent.assignable⟩
  | .otherwise hcondition hconsequent _ halternative =>
    exact assignable_append.2 ⟨assignable_append.2 ⟨hcondition.assignable, hconsequent.assignable⟩,
      halternative.assignable⟩
  | .elseIf hcondition hconsequent _ _ h =>
    exact assignable_append.2 ⟨assignable_append.2 ⟨hcondition.assignable, hconsequent.assignable⟩,
      assignable_append.2 ⟨h.assignable, assignable_nil⟩⟩

theorem IsDeclaration.assignable {ts : List Token} {d : Declaration} (h : IsDeclaration ts d) :
    Assignable d.subexpressions := by
  match h with
  | .class _ _ hbody => exact hbody.assignable
  | .function _ _ _ hbody => exact hbody.assignable
  | .method _ _ _ hbody => exact hbody.assignable

end

end Grammar

end LiterateFun
