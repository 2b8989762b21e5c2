import LiterateFun.Proofs.Naming.Arrangement
import LiterateFun.Proofs.Scoping.Accepted

/-!
This module contains the scopes of lowered programs: they are the scopes of the program, with every
identifier spelled out.
-/

namespace LiterateFun

open Lowering Script Region

/--
A block with some names declared in front of it, in which no class or function has the name of
another one or one of these names, and every method stands beside its class.
-/
structure Block.Regular (names : List Identifier) (b : Block) : Prop where
  nodup : ((names ++ b.flatMap Statement.scopeNames).map Identifier.name).Nodup
  owners : b.flatMap Statement.owners ⊆ b.flatMap Statement.classNames

/--
A part of a program that can be spelled out, where `ids` are the bindings that a `:=` introduces.
The part is given by the roles of its identifiers, its expressions and the ids of its `:=`.
-/
structure Spellable (ids : List Nat) (roles : List (Role × Identifier)) (es : List Expr)
    (declared : List Nat) : Prop where
  assignable : Assignable es
  nodup : declared.Nodup
  target : ∀ x, (.variable, x) ∈ roles → ∃ id ∈ ids, x.id = some id
  name : ∀ x, (.declaration, x) ∈ roles → (x.variable ids).id = none
  parameter : ∀ x, (.parameter, x) ∈ roles → (x.variable ids).id = none

namespace Spellable

variable {ids : List Nat} {roles₁ roles₂ : List (Role × Identifier)} {es es₁ es₂ : List Expr}
  {declared declared₁ declared₂ : List Nat}

theorem mono (h : Spellable ids roles₂ es₂ declared₂) (hroles : roles₁ ⊆ roles₂)
    (hes : Assignable es₂ → Assignable es₁) (hdeclared : declared₁.Sublist declared₂) :
    Spellable ids roles₁ es₁ declared₁ where
  assignable := hes h.assignable
  nodup := h.nodup.sublist hdeclared
  target x hx := h.target x (hroles hx)
  name x hx := h.name x (hroles hx)
  parameter x hx := h.parameter x (hroles hx)

theorem left (h : Spellable ids (roles₁ ++ roles₂) (es₁ ++ es₂) (declared₁ ++ declared₂)) :
    Spellable ids roles₁ es₁ declared₁ :=
  h.mono (List.subset_append_left _ _) (fun hes => (assignable_append.1 hes).1)
    (List.sublist_append_left _ _)

theorem right (h : Spellable ids (roles₁ ++ roles₂) (es₁ ++ es₂) (declared₁ ++ declared₂)) :
    Spellable ids roles₂ es₂ declared₂ :=
  h.mono (List.subset_append_right _ _) (fun hes => (assignable_append.1 hes).2)
    (List.sublist_append_right _ _)

theorem tail {e : Expr} (h : Spellable ids roles₁ (e :: es) declared) :
    Spellable ids roles₁ es declared :=
  h.mono (fun _ hp => hp) (fun hes => hes.of_cons) (.refl _)

theorem body (h : Spellable ids (roles₁ ++ roles₂) es declared) :
    Spellable ids roles₂ es declared :=
  h.mono (List.subset_append_right _ _) id (.refl _)

end Spellable

def Undeclared (st : Lowering.State) (declared : List Nat) : Prop :=
  ∀ v ∈ st.declared, ∀ id ∈ declared, v.id ≠ some id

/-- From `st` on to `st'`, only variables with some ids were declared. -/
def DeclaresAmong (st st' : Lowering.State) (declared : List Nat) : Prop :=
  ∀ v ∈ st'.declared, v ∈ st.declared ∨ ∀ id, v.id = some id → id ∈ declared

theorem Undeclared.left {st : Lowering.State} {declared₁ declared₂ : List Nat}
    (h : Undeclared st (declared₁ ++ declared₂)) : Undeclared st declared₁ :=
  fun v hv id hid => h v hv id (List.mem_append_left _ hid)

theorem Undeclared.right {st st' : Lowering.State} {declared₁ declared₂ : List Nat}
    (h : Undeclared st (declared₁ ++ declared₂)) (hnodup : (declared₁ ++ declared₂).Nodup)
    (hst : DeclaresAmong st st' declared₁) : Undeclared st' declared₂ := by
  intro v hv id hid heq
  cases hst v hv with
  | inl hv => exact h v hv id (List.mem_append_right _ hid) heq
  | inr hmem => exact (List.nodup_append.1 hnodup).2.2 id (hmem id heq) id hid rfl

theorem DeclaresAmong.append {st st' st'' : Lowering.State} {declared₁ declared₂ : List Nat}
    (h₁ : DeclaresAmong st st' declared₁) (h₂ : DeclaresAmong st' st'' declared₂) :
    DeclaresAmong st st'' (declared₁ ++ declared₂) := by
  intro v hv
  cases h₂ v hv with
  | inr hmem => exact .inr fun id hid => List.mem_append_right _ (hmem id hid)
  | inl hv => exact (h₁ v hv).imp_right fun hmem id hid => List.mem_append_left _ (hmem id hid)

theorem declaresAmong_self (st : Lowering.State) (declared : List Nat) :
    DeclaresAmong st st declared :=
  fun _ hv => .inl hv

theorem declaresAmong_declareOnce (ids : List Nat) (x : Identifier) (st : Lowering.State) :
    DeclaresAmong st (declareOnce (x.variable ids) st).2 x.id.toList := by
  intro v hv
  unfold declareOnce at hv
  split at hv
  · exact .inl hv
  · rw [List.mem_cons] at hv
    rcases hv with rfl | hv
    · right
      intro id hid
      rw [Identifier.variable, Option.filter_eq_some_iff] at hid
      simp [hid.1]
    · exact .inl hv

mutual

theorem Expr.declaresAmong_lower (ids : List Nat) (e : Expr) (st : Lowering.State) :
    DeclaresAmong st (e.lower ids st).2 e.declaredIds := by
  match e with
  | .string value => exact declaresAmong_self st _
  | .number value => exact declaresAmong_self st _
  | .identifier x => exact declaresAmong_self st _
  | .binary op left right =>
    exact (left.declaresAmong_lower ids st).append
      (right.declaresAmong_lower ids (left.lower ids st).2)
  | .call callee arguments =>
    exact (callee.declaresAmong_lower ids st).append
      (Expr.declaresAmong_lowerList ids arguments (callee.lower ids st).2)
  | .assign target value =>
    cases target <;> exact value.declaresAmong_lower ids st
  | .declare x value =>
    intro v hv
    have happend := (value.declaresAmong_lower ids st).append
      (declaresAmong_declareOnce ids x (value.lower ids st).2)
    refine (happend v hv).imp_right fun hmem id hid => ?_
    exact List.mem_append.2 (List.mem_append.1 (hmem id hid)).symm

theorem Expr.declaresAmong_lowerList (ids : List Nat) (es : List Expr) (st : Lowering.State) :
    DeclaresAmong st (Expr.lowerList ids es st).2 (Expr.declaredIdsList es) := by
  match es with
  | [] => exact declaresAmong_self st _
  | e :: es =>
    exact (e.declaresAmong_lower ids st).append
      (Expr.declaresAmong_lowerList ids es (e.lower ids st).2)

end

theorem Statement.declaresAmong_lower (ids : List Nat) (s : Statement) (st : Lowering.State) :
    DeclaresAmong st (s.lower ids st).2 s.declaredIds := by
  cases s with
  | expression value => exact value.declaresAmong_lower ids st
  | «return» value => exact value.declaresAmong_lower ids st
  | declaration d => exact declaresAmong_self st _
  | conditional condition consequent alternative =>
    cases alternative <;> exact declaresAmong_self st _

/--
The code of a part of a program has the names of the part spelled out. The `values` are used by the
statement that comes after the code.
-/
structure Spelled (ids : List Nat) (targets used : List Identifier)
    (regions : List (Region Identifier)) (pieces : List Piece) (code : List Script.Statement)
    (values : List Value) : Prop where
  declared : code.flatMap Statement.declaredNames = targets.map (Identifier.spelling ids)
  used : ∀ t, t ∈ used.map (Identifier.spelling ids) ↔
    t ∈ code.flatMap Statement.usedNames ++ values.flatMap Value.names
  inner : SpellsAll (Identifier.spelling ids) regions (pieces.map Piece.region ++ regionsOf code)

namespace Spelled

variable {ids : List Nat} {targets targets₁ targets₂ used used₁ used₂ : List Identifier}
  {regions regions₁ regions₂ : List (Region Identifier)} {pieces pieces₁ pieces₂ : List Piece}
  {code code₁ code₂ : List Script.Statement} {values values₁ values₂ : List Value}

theorem nil (hvalues : values.flatMap Value.names = []) : Spelled ids [] [] [] [] [] values where
  declared := rfl
  used t := by rw [hvalues]; rfl
  inner := spellsAll_nil

theorem append (h₁ : Spelled ids targets₁ used₁ regions₁ pieces₁ code₁ values₁)
    (h₂ : Spelled ids targets₂ used₂ regions₂ pieces₂ code₂ values₂) :
    Spelled ids (targets₁ ++ targets₂) (used₁ ++ used₂) (regions₁ ++ regions₂) (pieces₁ ++ pieces₂)
      (code₁ ++ code₂) (values₁ ++ values₂) := by
  constructor
  · rw [List.flatMap_append, h₁.declared, h₂.declared, List.map_append]
  · intro t
    rw [List.map_append, List.mem_append, h₁.used, h₂.used]
    simp only [List.flatMap_append, List.mem_append]
    tauto
  · refine (h₁.inner.append h₂.inner).perm ?_
    rw [List.map_append, regionsOf_append]
    exact perm_append_append_comm _ _ _ _

theorem snoc (h : Spelled ids targets used regions pieces code values) {c : Script.Statement}
    (hdeclared : c.declaredNames = []) (hused : c.usedNames = values.flatMap Value.names)
    (hregions : c.regions = []) {values' : List Value}
    (hvalues : values'.flatMap Value.names = []) :
    Spelled ids targets used regions pieces (code ++ [c]) values' := by
  constructor
  · rw [List.flatMap_append, List.flatMap_singleton, hdeclared, List.append_nil, h.declared]
  · intro t
    rw [h.used, List.flatMap_append, List.flatMap_singleton, hused, hvalues, List.append_nil]
  · rw [regionsOf_append, regionsOf_singleton, hregions, List.append_nil]
    exact h.inner

theorem assign (h : Spelled ids targets used regions pieces code [value]) (x : Identifier) :
    Spelled ids targets (x :: used) regions pieces (code ++ [.assign (x.variable ids) value])
      [.variable (x.variable ids)] := by
  constructor
  · rw [List.flatMap_append, List.flatMap_singleton, h.declared]
    exact List.append_nil _
  · intro t
    rw [List.map_cons, List.mem_cons, h.used]
    simp only [List.flatMap_append, List.flatMap_singleton, Statement.usedNames, Value.names,
      List.mem_append, List.mem_cons, Identifier.spelling]
    tauto
  · rw [regionsOf_append, regionsOf_singleton, Script.Statement.regions, List.append_nil]
    exact h.inner

end Spelled

section

variable {ids : List Nat}

theorem spelled_declareOnce {x : Identifier} {st : Lowering.State}
    (h : x.variable ids ∉ st.declared) :
    Spelled ids [x] [] [] [] (declareOnce (x.variable ids) st).1 [] := by
  rw [declareOnce, if_neg h]
  constructor
  · rfl
  · intro t
    exact Iff.rfl
  · exact spellsAll_nil

theorem Undeclared.notMem {x : Identifier} {st : Lowering.State} {id : Nat}
    (h : Undeclared st [id]) (hx : x.id = some id) (hid : id ∈ ids) :
    x.variable ids ∉ st.declared := by
  intro hmem
  apply h _ hmem id List.mem_cons_self
  rw [Identifier.variable, hx, Option.filter_some_pos (by simpa using hid)]

mutual

theorem Expr.spelled (e : Expr) (h : Spellable ids e.roles e.subexpressions e.declaredIds)
    (st : Lowering.State) (hst : Undeclared st e.declaredIds) :
    Spelled ids e.targets e.identifiers [] [] (e.lower ids st).1.code
      [(e.lower ids st).1.value] := by
  match e with
  | .string value => exact .nil rfl
  | .number value => exact .nil rfl
  | .identifier x =>
    constructor
    · rfl
    · intro t
      exact Iff.rfl
    · exact spellsAll_nil
  | .binary op left right =>
    have hleft := left.spelled h.tail.left st hst.left
    have hright := right.spelled h.tail.right (left.lower ids st).2
      (hst.right h.nodup (left.declaresAmong_lower ids st))
    rw [Expr.targets, Expr.items, List.filterMap_append]
    refine (hleft.append hright).snoc rfl ?_ rfl rfl
    rw [Statement.usedNames, List.flatMap_append, List.flatMap_singleton, List.flatMap_singleton]
  | .call callee arguments =>
    have hcallee := callee.spelled h.tail.left st hst.left
    have harguments := Expr.spelled_list arguments h.tail.right (callee.lower ids st).2
      (hst.right h.nodup (callee.declaresAmong_lower ids st))
    rw [Expr.targets, Expr.items, List.filterMap_append]
    refine (hcallee.append harguments).snoc rfl ?_ rfl rfl
    rw [Statement.usedNames, List.flatMap_append, List.flatMap_singleton]
  | .assign target value =>
    obtain ⟨x, rfl⟩ := h.assignable target value List.mem_cons_self
    have htail : Spellable ids ([(.reference, x)] ++ value.roles)
        ([.identifier x] ++ value.subexpressions) ([] ++ value.declaredIds) := h.tail
    exact (value.spelled htail.right st hst).assign x
  | .declare x value =>
    obtain ⟨id, hid, hx⟩ := h.target x List.mem_cons_self
    have hsplit : Spellable ids ([(.variable, x)] ++ value.roles) ([] ++ value.subexpressions)
        (x.id.toList ++ value.declaredIds) := h.tail
    -- The value is evaluated first, but its ids come last in the list.
    have hnodup := List.nodup_append_comm.1 hsplit.nodup
    have hst' : Undeclared st (value.declaredIds ++ x.id.toList) := by
      intro v hv id hid
      exact hst v hv id (List.mem_append.2 (List.mem_append.1 hid).symm)
    have hvalue := value.spelled hsplit.right st hst'.left
    have hnew := hst'.right hnodup (value.declaresAmong_lower ids st)
    rw [hx] at hnew
    have hdeclare := spelled_declareOnce (hnew.notMem hx hid)
    rw [Expr.targets, Expr.items, List.filterMap_append]
    have happend := hvalue.append hdeclare
    rw [List.append_nil, List.append_nil] at happend
    exact happend.assign x

theorem Expr.spelled_list (es : List Expr)
    (h : Spellable ids (Expr.rolesList es) (Expr.subexpressionsList es) (Expr.declaredIdsList es))
    (st : Lowering.State) (hst : Undeclared st (Expr.declaredIdsList es)) :
    Spelled ids ((Expr.itemsList es).filterMap Item.target?) (Expr.identifiersList es) [] []
      (Expr.lowerList ids es st).1.code (Expr.lowerList ids es st).1.value := by
  match es with
  | [] => exact .nil rfl
  | e :: es =>
    have he := e.spelled h.left st hst.left
    have hes := Expr.spelled_list es h.right (e.lower ids st).2
      (hst.right h.nodup (e.declaresAmong_lower ids st))
    rw [Expr.itemsList, List.filterMap_append]
    exact he.append hes

end

theorem lowerDeclarations_cons (ids : List Nat) (st : Statement) (b : List Statement) :
    lowerDeclarations ids (st :: b) = lowerDeclarations ids [st] ++ lowerDeclarations ids b := by
  cases st <;> rfl

theorem flatMap_lowerDeclarations {α : Type} {f : Piece → List α} {g : Statement → List α}
    (h : ∀ st, (lowerDeclarations ids [st]).flatMap f = g st) (b : List Statement) :
    (lowerDeclarations ids b).flatMap f = b.flatMap g := by
  induction b with
  | nil => rfl
  | cons st b ih => rw [lowerDeclarations_cons, List.flatMap_append, h, ih, List.flatMap_cons]

theorem flatMap_scopeNames_lowerDeclarations (b : List Statement) :
    (lowerDeclarations ids b).flatMap Piece.scopeNames =
      (b.flatMap Statement.scopeNames).map Identifier.name := by
  rw [List.map_flatMap]
  refine flatMap_lowerDeclarations (fun st => ?_) b
  cases st with
  | declaration d => cases d <;> rfl
  | _ => rfl

theorem flatMap_classNames_lowerDeclarations (b : List Statement) :
    (lowerDeclarations ids b).flatMap Piece.classNames = b.flatMap Statement.classNames := by
  refine flatMap_lowerDeclarations (fun st => ?_) b
  cases st with
  | declaration d => cases d <;> rfl
  | _ => rfl

theorem flatMap_owners_lowerDeclarations (b : List Statement) :
    (lowerDeclarations ids b).flatMap Piece.owners = b.flatMap Statement.owners := by
  refine flatMap_lowerDeclarations (fun st => ?_) b
  cases st with
  | declaration d => cases d <;> rfl
  | _ => rfl

theorem classNames_sublist (b : List Statement) :
    (b.flatMap Statement.classNames).Sublist
      ((b.flatMap Statement.scopeNames).map Identifier.name) := by
  rw [List.map_flatMap]
  induction b with
  | nil => exact .slnil
  | cons st b ih =>
    rw [List.flatMap_cons, List.flatMap_cons]
    refine List.Sublist.append ?_ ih
    cases st with
    | declaration d =>
      cases d with
      | function name parameters body => exact List.nil_sublist _
      | _ => exact .refl _
    | _ => exact .refl _

theorem Block.Regular.pieces {names : List Identifier} {b : Block} (h : b.Regular names) :
    Piece.Regular (lowerDeclarations ids b) := by
  constructor
  · rw [flatMap_classNames_lowerDeclarations]
    refine h.nodup.sublist ((classNames_sublist b).trans ?_)
    exact (List.sublist_append_right _ _).map _
  · rw [flatMap_owners_lowerDeclarations, flatMap_classNames_lowerDeclarations]
    exact h.owners

theorem declaration_mem_blockRoles {b : List Statement} {x : Identifier}
    (hx : x ∈ b.flatMap Statement.scopeNames) : (.declaration, x) ∈ blockRoles b := by
  induction b with
  | nil => cases hx
  | cons st b ih =>
    rw [List.flatMap_cons, List.mem_append] at hx
    rw [blockRoles, List.mem_append]
    refine hx.imp (fun hx => ?_) ih
    cases st with
    | declaration d =>
      cases d with
      | method owner name parameters body => cases hx
      | _ =>
        cases List.mem_singleton.1 hx
        exact List.mem_cons_self
    | _ => cases hx

theorem Identifier.spelling_of_plain {x : Identifier} (h : (x.variable ids).id = none) :
    x.spelling ids = spell x.name := by
  rw [Identifier.spelling, Variable.text, h]
  rfl

theorem map_spelling_of_plain {xs : List Identifier} (h : ∀ x ∈ xs, (x.variable ids).id = none) :
    xs.map (Identifier.spelling ids) = (xs.map Identifier.name).map spell := by
  rw [List.map_map]
  exact List.map_congr_left fun x hx => Identifier.spelling_of_plain (h x hx)

theorem Block.spells {names : List Identifier} {b : Block} {es : List Expr} {declared : List Nat}
    (h : Spellable ids (blockRoles b) es declared)
    (hnames : ∀ x ∈ names, (x.variable ids).id = none)
    (hregular : b.Regular names)
    (hspelled : Spelled ids (b.flatMap Statement.targets) (b.flatMap Statement.used)
      (blockRegions b) (lowerDeclarations ids b) (lowerStatements ids b {}).1 []) :
    Spells (Identifier.spelling ids) (b.region names)
      (Script.region ((names.map Identifier.name).map spell) (b.lower ids)) := by
  have hplain : ∀ x ∈ b.flatMap Statement.scopeNames, (x.variable ids).id = none :=
    fun x hx => h.name x (declaration_mem_blockRoles hx)
  obtain ⟨spelled, hinner, horder⟩ := hspelled.inner
  refine .mk ?_ ?_ hinner ?_
  · rw [Block.lower, assemble, List.flatMap_append, List.map_append, Block.declared,
      List.map_append, map_spelling_of_plain hnames, map_spelling_of_plain hplain]
    apply List.Perm.append_left
    refine .append ?_ (.of_eq hspelled.declared.symm)
    rw [← flatMap_scopeNames_lowerDeclarations]
    exact hregular.pieces.declaredNames_arrange.symm
  · intro t
    rw [hspelled.used, Block.lower, assemble, List.flatMap_append, Piece.usedNames_arrange]
    simp only [List.flatMap_nil, List.append_nil, List.nil_append]
    rfl
  · refine horder.trans ?_
    rw [Block.lower, assemble, regionsOf_append]
    exact hregular.pieces.regions_arrange.symm.append_right _

theorem undeclared_nil (st : Lowering.State) (declared : List Nat) :
    Undeclared { st with declared := [] } declared := by
  intro v hv
  cases hv

theorem spells_conditional {condition : Expr} {setup : List Script.Statement} {value : Value}
    {branches : List (Region Identifier)} {branches' : List (Region String)}
    (h : Spelled ids condition.targets condition.identifiers [] [] setup [value])
    (hbranches : SpellsAll (Identifier.spelling ids) branches branches') :
    Spells (Identifier.spelling ids) (.mk condition.targets condition.identifiers branches)
      (.mk (setup.flatMap Statement.declaredNames)
        (setup.flatMap Statement.usedNames ++ value.names) (regionsOf setup ++ branches')) := by
  obtain ⟨spelled, hspelled, horder⟩ := h.inner.append hbranches
  refine .mk (.of_eq h.declared.symm) ?_ hspelled horder
  intro t
  rw [h.used, List.flatMap_singleton]

mutual

theorem Statement.spelled (st : Statement)
    (h : Spellable ids st.roles st.subexpressions st.declaredIds)
    (hregular : ∀ p ∈ st.blocks, Block.Regular p.1 p.2) (ls : Lowering.State)
    (hls : Undeclared ls st.declaredIds) :
    Spelled ids st.targets st.used st.regions (lowerDeclarations ids [st]) (st.lower ids ls).1
      [] := by
  match st with
  | .expression value =>
    exact (value.spelled h ls hls).snoc rfl (List.append_nil _).symm rfl rfl
  | .return value =>
    exact (value.spelled h ls hls).snoc rfl (List.append_nil _).symm rfl rfl
  | .declaration d =>
    constructor
    · rfl
    · intro t
      exact Iff.rfl
    · exact spellsAll_singleton (d.spells h hregular)
  | .conditional condition consequent none =>
    rw [Statement.blocks, List.forall_mem_cons] at hregular
    -- The condition stands in braces of its own, so that nothing is declared in them before.
    have hcondition := condition.spelled h.left { ls with declared := [] } (undeclared_nil ls _)
    have hconsequent := Block.spells h.right (List.forall_mem_nil _) hregular.1
      (spelled_statements consequent h.right hregular.2 {} (undeclared_nil {} _))
    constructor
    · rfl
    · intro t
      exact Iff.rfl
    · exact spellsAll_singleton (spells_conditional hcondition (spellsAll_singleton hconsequent))
  | .conditional condition consequent (some alternative) =>
    rw [Statement.blocks, List.forall_mem_append, List.forall_mem_cons, List.forall_mem_cons]
      at hregular
    have hcondition := condition.spelled h.left.left { ls with declared := [] }
      (undeclared_nil ls _)
    have hconsequent := Block.spells h.left.right (List.forall_mem_nil _) hregular.1.1
      (spelled_statements consequent h.left.right hregular.1.2 {} (undeclared_nil {} _))
    have halternative := Block.spells h.right (List.forall_mem_nil _) hregular.2.1
      (spelled_statements alternative h.right hregular.2.2 {} (undeclared_nil {} _))
    constructor
    · rfl
    · intro t
      exact Iff.rfl
    · have hbranches := (spellsAll_singleton hconsequent).append (spellsAll_singleton halternative)
      have hspells := spells_conditional hcondition hbranches
      rw [← List.append_assoc] at hspells
      exact spellsAll_singleton hspells

theorem Declaration.spells (d : Declaration)
    (h : Spellable ids d.roles d.subexpressions d.declaredIds)
    (hregular : ∀ p ∈ d.blocks, Block.Regular p.1 p.2) :
    Spells (Identifier.spelling ids) d.region (d.lower ids).region := by
  match d with
  | .class name body =>
    rw [Declaration.blocks, List.forall_mem_cons] at hregular
    have hbody : Spellable ids ([(.declaration, name)] ++ blockRoles body)
        (blockSubexpressions body) (blockDeclaredIds body) := h
    exact Block.spells hbody.body (List.forall_mem_nil _) hregular.1
      (spelled_statements body hbody.body hregular.2 {} (undeclared_nil {} _))
  | .function name parameters body =>
    rw [Declaration.blocks, List.forall_mem_cons] at hregular
    have hparameters : ∀ x ∈ parameters, (x.variable ids).id = none := by
      intro x hx
      apply h.parameter
      simp [Declaration.roles, parameterRoles, hx]
    exact Block.spells h.body hparameters hregular.1
      (spelled_statements body h.body hregular.2 {} (undeclared_nil {} _))
  | .method owner name parameters body =>
    rw [Declaration.blocks, List.forall_mem_cons] at hregular
    have hparameters : ∀ x ∈ parameters, (x.variable ids).id = none := by
      intro x hx
      apply h.parameter
      simp [Declaration.roles, parameterRoles, hx]
    exact Block.spells h.body hparameters hregular.1
      (spelled_statements body h.body hregular.2 {} (undeclared_nil {} _))

theorem spelled_statements (b : List Statement)
    (h : Spellable ids (blockRoles b) (blockSubexpressions b) (blockDeclaredIds b))
    (hregular : ∀ p ∈ blocksIn b, Block.Regular p.1 p.2) (ls : Lowering.State)
    (hls : Undeclared ls (blockDeclaredIds b)) :
    Spelled ids (b.flatMap Statement.targets) (b.flatMap Statement.used) (blockRegions b)
      (lowerDeclarations ids b) (lowerStatements ids b ls).1 [] := by
  match b with
  | [] => exact .nil rfl
  | st :: b =>
    rw [blocksIn, List.forall_mem_append] at hregular
    have hst := st.spelled h.left hregular.1 ls hls.left
    have hb := spelled_statements b h.right hregular.2 (st.lower ids ls).2
      (hls.right h.nodup (st.declaresAmong_lower ids ls))
    rw [lowerDeclarations_cons, List.flatMap_cons, List.flatMap_cons]
    exact hst.append hb

end

theorem Block.spells_lower {b : Block} {names : List Identifier}
    (h : Spellable ids (blockRoles b) (blockSubexpressions b) (blockDeclaredIds b))
    (hregular : ∀ p ∈ (names, b) :: blocksIn b, Block.Regular p.1 p.2)
    (hnames : ∀ x ∈ names, (x.variable ids).id = none) :
    Spells (Identifier.spelling ids) (b.region names)
      (Script.region ((names.map Identifier.name).map spell) (b.lower ids)) := by
  rw [List.forall_mem_cons] at hregular
  exact Block.spells h hnames hregular.1
    (spelled_statements b h hregular.2 {} (undeclared_nil {} _))

end

end LiterateFun
