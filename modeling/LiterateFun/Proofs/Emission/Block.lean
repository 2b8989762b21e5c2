import LiterateFun.Proofs.Emission.Lines
import LiterateFun.Proofs.Naming.Definitions

/-!
This module contains the outlines of programs, and those of lowered programs: every part of a
program is found in the script once, in the scope of the block that it is a direct part of.
-/

namespace LiterateFun

open Lowering Script Outline

def Identifier.feature (x : Identifier) : Feature :=
  .ofVariable { name := x.name, id := x.id }

mutual

/-- What has to be found in the scope of an expression: its operations, its calls and its `:=`. -/
def Expr.features : Expr → List Feature
  | .string _ => []
  | .number _ => []
  | .identifier _ => []
  | .binary _ left right => left.features ++ right.features ++ [{ kind := .temporary, names := [] }]
  | .call callee arguments =>
    callee.features ++ Expr.featuresList arguments ++ [{ kind := .temporary, names := [] }]
  | .assign target value => target.features ++ value.features
  | .declare x value => value.features ++ [x.feature]

def Expr.featuresList : List Expr → List Feature
  | [] => []
  | e :: es => e.features ++ Expr.featuresList es

end

def Declaration.feature : Declaration → Feature
  | .class name _ => .ofConstructor name.name
  | .function name parameters _ => .ofFunction name.name (parameters.map Identifier.name)
  | .method owner name parameters _ =>
    .ofMethod owner.name name.name (parameters.map Identifier.name)

/-- What has to be found in the scope where a statement stands. A condition has its own scope. -/
def Statement.features : Statement → List Feature
  | .expression value => value.features
  | .return value => value.features ++ [{ kind := .return, names := [] }]
  | .conditional .. => []
  | .declaration d => [d.feature]

mutual

def Statement.outlines : Statement → List Outline
  | .expression _ => []
  | .return _ => []
  | .conditional condition consequent none =>
    [.mk .plain condition.features
      [.mk .consequent (consequent.flatMap Statement.features) (blockOutlines consequent)]]
  | .conditional condition consequent (some alternative) =>
    [.mk .plain condition.features
      [.mk .consequent (consequent.flatMap Statement.features) (blockOutlines consequent),
        .mk .alternative (alternative.flatMap Statement.features) (blockOutlines alternative)]]
  | .declaration d => [d.outline]

def Declaration.outline : Declaration → Outline
  | .class name body =>
    .mk (.feature (.ofConstructor name.name)) (body.flatMap Statement.features) (blockOutlines body)
  | .function name parameters body =>
    .mk (.feature (.ofFunction name.name (parameters.map Identifier.name)))
      (body.flatMap Statement.features) (blockOutlines body)
  | .method owner name parameters body =>
    .mk (.feature (.ofMethod owner.name name.name (parameters.map Identifier.name)))
      (body.flatMap Statement.features) (blockOutlines body)

def blockOutlines : List Statement → List Outline
  | [] => []
  | s :: b => s.outlines ++ blockOutlines b

end

def Block.outline (head : ScopeHead) (b : Block) : Outline :=
  .mk head (b.flatMap Statement.features) (blockOutlines b)

namespace Lowering.Piece

def feature : Piece → Feature
  | .class name _ => .ofConstructor name
  | .function name parameters _ => .ofFunction name parameters
  | .method owner name parameters _ => .ofMethod owner name parameters

def outline : Piece → Outline
  | .class name body => Script.outline (.feature (.ofConstructor name)) body
  | .function name parameters body => Script.outline (.feature (.ofFunction name parameters)) body
  | .method owner name parameters body =>
    Script.outline (.feature (.ofMethod owner name parameters)) body

theorem collects_features : Collects Script.Statement.features fun p => [p.feature] := by
  constructor
  · intro name constructor methods
    rw [Script.Statement.features, List.map_eq_flatMap, List.map_eq_flatMap]
    congr 2
    funext m
    cases m
    rfl
  · intro name parameters body
    rfl

theorem collects_outlines : Collects Script.Statement.outlines fun p => [p.outline] := by
  constructor
  · intro name constructor methods
    have hmethods : methodOutlines name methods =
        methods.flatMap fun m => [(ofMethod name m).outline] := by
      rw [methodOutlines_eq_map, List.map_eq_flatMap]
      congr 1
      funext m
      cases m
      rw [Method.outline]
      rfl
    cases constructor with
    | none => exact hmethods
    | some body =>
      exact congrArg (Script.outline (.feature (.ofConstructor name)) body :: ·) hmethods
  · intro name parameters body
    rw [Script.Statement.outlines]
    rfl

end Lowering.Piece

/--
The code of a part of a program, together with the declarations that stand in front of it, has the
features and the scopes of the part.
-/
structure Outlined (features : List Feature) (outlines : List Outline) (pieces : List Piece)
    (code : List Script.Statement) : Prop where
  own : features.Perm (pieces.map Piece.feature ++ code.flatMap Script.Statement.features)
  inner : Matching Same outlines (pieces.map Piece.outline ++ outlinesOf code)

namespace Outlined

variable {features features₁ features₂ : List Feature} {outlines outlines₁ outlines₂ : List Outline}
  {pieces pieces₁ pieces₂ : List Piece} {code code₁ code₂ : List Script.Statement}

theorem nil : Outlined [] [] [] [] where
  own := .nil
  inner := Matching.nil

theorem append (h₁ : Outlined features₁ outlines₁ pieces₁ code₁)
    (h₂ : Outlined features₂ outlines₂ pieces₂ code₂) :
    Outlined (features₁ ++ features₂) (outlines₁ ++ outlines₂) (pieces₁ ++ pieces₂)
      (code₁ ++ code₂) := by
  constructor
  · rw [List.map_append, List.flatMap_append]
    exact (h₁.own.append h₂.own).trans (perm_append_append_comm _ _ _ _)
  · rw [List.map_append, outlinesOf_append]
    exact (h₁.inner.append h₂.inner).perm (perm_append_append_comm _ _ _ _)

theorem snoc (h : Outlined features outlines pieces code) {c : Script.Statement}
    {features' : List Feature} (hfeatures : c.features = features') (hc : c.outlines = []) :
    Outlined (features ++ features') outlines pieces (code ++ [c]) := by
  have hlast : Outlined features' [] [] [c] := by
    constructor
    · rw [List.flatMap_singleton, hfeatures]
      exact .refl _
    · rw [outlinesOf, outlinesOf, hc]
      exact Matching.nil
  have happend := h.append hlast
  rwa [List.append_nil, List.append_nil] at happend

theorem silent (h : Outlined features outlines pieces code) {c : Script.Statement}
    (hfeatures : c.features = []) (hc : c.outlines = []) :
    Outlined features outlines pieces (code ++ [c]) := by
  have hsnoc := h.snoc hfeatures hc
  rwa [List.append_nil] at hsnoc

end Outlined

section

variable {ids : List Nat}

theorem outlined_declareOnce {x : Identifier} {st : Lowering.State} {id : Nat}
    (h : Undeclared st [id]) (hx : x.id = some id) (hid : id ∈ ids) :
    Outlined [x.feature] [] [] (declareOnce (x.variable ids) st).1 := by
  have hvariable : x.variable ids = { name := x.name, id := x.id } := by
    rw [Identifier.variable, hx, Option.filter_some_pos (by simpa using hid)]
  rw [declareOnce, if_neg (h.notMem hx hid), hvariable]
  exact ⟨.refl _, Matching.nil⟩

mutual

theorem Expr.outlined (e : Expr) (h : Spellable ids e.roles e.subexpressions e.declaredIds)
    (st : Lowering.State) (hst : Undeclared st e.declaredIds) :
    Outlined e.features [] [] (e.lower ids st).1.code := by
  match e with
  | .string value => exact .nil
  | .number value => exact .nil
  | .identifier x => exact .nil
  | .binary op left right =>
    have hleft := left.outlined h.tail.left st hst.left
    have hright := right.outlined h.tail.right (left.lower ids st).2
      (hst.right h.nodup (left.declaresAmong_lower ids st))
    exact (hleft.append hright).snoc rfl rfl
  | .call callee arguments =>
    have hcallee := callee.outlined h.tail.left st hst.left
    have harguments := Expr.outlined_list arguments h.tail.right (callee.lower ids st).2
      (hst.right h.nodup (callee.declaresAmong_lower ids st))
    exact (hcallee.append harguments).snoc rfl rfl
  | .assign target value =>
    obtain ⟨x, rfl⟩ := h.assignable target value List.mem_cons_self
    have htail : Spellable ids ([(.reference, x)] ++ value.roles)
        ([.identifier x] ++ value.subexpressions) ([] ++ value.declaredIds) := h.tail
    exact (value.outlined htail.right st hst).silent rfl rfl
  | .declare x value =>
    obtain ⟨id, hid, hx⟩ := h.target x List.mem_cons_self
    have hsplit : Spellable ids ([(.variable, x)] ++ value.roles) ([] ++ value.subexpressions)
        (x.id.toList ++ value.declaredIds) := h.tail
    -- The value is evaluated first, but its ids come last in the list.
    have hst' : Undeclared st (value.declaredIds ++ x.id.toList) := by
      intro v hv id hid
      exact hst v hv id (List.mem_append.2 (List.mem_append.1 hid).symm)
    have hvalue := value.outlined hsplit.right st hst'.left
    have hnew := hst'.right (List.nodup_append_comm.1 hsplit.nodup)
      (value.declaresAmong_lower ids st)
    rw [hx] at hnew
    exact (hvalue.append (outlined_declareOnce hnew hx hid)).silent rfl rfl

theorem Expr.outlined_list (es : List Expr)
    (h : Spellable ids (Expr.rolesList es) (Expr.subexpressionsList es) (Expr.declaredIdsList es))
    (st : Lowering.State) (hst : Undeclared st (Expr.declaredIdsList es)) :
    Outlined (Expr.featuresList es) [] [] (Expr.lowerList ids es st).1.code := by
  match es with
  | [] => exact .nil
  | e :: es =>
    have he := e.outlined h.left st hst.left
    have hes := Expr.outlined_list es h.right (e.lower ids st).2
      (hst.right h.nodup (e.declaresAmong_lower ids st))
    exact he.append hes

end

theorem Outlined.same_lower {b : Block}
    (h : Outlined (b.flatMap Statement.features) (blockOutlines b) (lowerDeclarations ids b)
      (lowerStatements ids b {}).1)
    (hclasses : (b.flatMap Statement.classNames).Nodup) (head : ScopeHead) :
    Same (b.outline head) (Script.outline head (b.lower ids)) := by
  have hpieces : ((lowerDeclarations ids b).flatMap Piece.classNames).Nodup := by
    rw [flatMap_classNames_lowerDeclarations]
    exact hclasses
  rw [Block.outline, Script.outline, Block.lower, assemble]
  refine same_of_matching (h.own.trans ?_) (h.inner.perm ?_) head
  · rw [List.flatMap_append, List.map_eq_flatMap]
    exact (Piece.collects_features.arrange_perm hpieces).symm.append_right _
  · rw [outlinesOf_append, outlinesOf_eq_flatMap (Piece.arrange _), List.map_eq_flatMap]
    exact (Piece.collects_outlines.arrange_perm hpieces).symm.append_right _

theorem Outlined.same_conditional {condition : Expr} {setup : List Script.Statement}
    {branches branches' : List Outline} (h : Outlined condition.features [] [] setup)
    (hbranches : Matching Same branches branches') :
    Same (.mk .plain condition.features branches)
      (.mk .plain (setup.flatMap Script.Statement.features) (outlinesOf setup ++ branches')) :=
  same_of_matching h.own (h.inner.append hbranches) .plain

mutual

theorem Statement.outlined (st : Statement)
    (h : Spellable ids st.roles st.subexpressions st.declaredIds)
    (hclasses : ∀ p ∈ st.blocks, (p.2.flatMap Statement.classNames).Nodup) (ls : Lowering.State)
    (hls : Undeclared ls st.declaredIds) :
    Outlined st.features st.outlines (lowerDeclarations ids [st]) (st.lower ids ls).1 := by
  match st with
  | .expression value => exact (value.outlined h ls hls).silent rfl rfl
  | .return value => exact (value.outlined h ls hls).snoc rfl rfl
  | .declaration d =>
    have hfeature : (d.lower ids).feature = d.feature := by
      cases d <;> rfl
    exact ⟨.of_eq (congrArg (fun f => [f]) hfeature.symm),
      Matching.singleton (d.same_lower h hclasses)⟩
  | .conditional condition consequent none =>
    rw [Statement.blocks, List.forall_mem_cons] at hclasses
    have hcondition := condition.outlined h.left { ls with declared := [] } (undeclared_nil ls _)
    have hconsequent := (outlined_statements consequent h.right hclasses.2 {}
      (undeclared_nil {} _)).same_lower hclasses.1 .consequent
    exact ⟨.nil, Matching.singleton (hcondition.same_conditional (Matching.singleton hconsequent))⟩
  | .conditional condition consequent (some alternative) =>
    rw [Statement.blocks, List.forall_mem_append, List.forall_mem_cons, List.forall_mem_cons]
      at hclasses
    have hcondition := condition.outlined h.left.left { ls with declared := [] }
      (undeclared_nil ls _)
    have hconsequent := (outlined_statements consequent h.left.right hclasses.1.2 {}
      (undeclared_nil {} _)).same_lower hclasses.1.1 .consequent
    have halternative := (outlined_statements alternative h.right hclasses.2.2 {}
      (undeclared_nil {} _)).same_lower hclasses.2.1 .alternative
    have hbranches := (Matching.singleton hconsequent).append (Matching.singleton halternative)
    have hsame := hcondition.same_conditional hbranches
    rw [← List.append_assoc] at hsame
    exact ⟨.nil, Matching.singleton hsame⟩

theorem Declaration.same_lower (d : Declaration)
    (h : Spellable ids d.roles d.subexpressions d.declaredIds)
    (hclasses : ∀ p ∈ d.blocks, (p.2.flatMap Statement.classNames).Nodup) :
    Same d.outline (d.lower ids).outline := by
  match d with
  | .class name body =>
    rw [Declaration.blocks, List.forall_mem_cons] at hclasses
    have hbody : Spellable ids ([(.declaration, name)] ++ blockRoles body)
        (blockSubexpressions body) (blockDeclaredIds body) := h
    exact (outlined_statements body hbody.body hclasses.2 {}
      (undeclared_nil {} _)).same_lower hclasses.1 _
  | .function name parameters body =>
    rw [Declaration.blocks, List.forall_mem_cons] at hclasses
    exact (outlined_statements body h.body hclasses.2 {} (undeclared_nil {} _)).same_lower
      hclasses.1 _
  | .method owner name parameters body =>
    rw [Declaration.blocks, List.forall_mem_cons] at hclasses
    exact (outlined_statements body h.body hclasses.2 {} (undeclared_nil {} _)).same_lower
      hclasses.1 _

theorem outlined_statements (b : List Statement)
    (h : Spellable ids (blockRoles b) (blockSubexpressions b) (blockDeclaredIds b))
    (hclasses : ∀ p ∈ blocksIn b, (p.2.flatMap Statement.classNames).Nodup) (ls : Lowering.State)
    (hls : Undeclared ls (blockDeclaredIds b)) :
    Outlined (b.flatMap Statement.features) (blockOutlines b) (lowerDeclarations ids b)
      (lowerStatements ids b ls).1 := by
  match b with
  | [] => exact .nil
  | st :: b =>
    rw [blocksIn, List.forall_mem_append] at hclasses
    have hst := st.outlined h.left hclasses.1 ls hls.left
    have hb := outlined_statements b h.right hclasses.2 (st.lower ids ls).2
      (hls.right h.nodup (st.declaresAmong_lower ids ls))
    rw [lowerDeclarations_cons, List.flatMap_cons]
    exact hst.append hb

end

end

end LiterateFun
