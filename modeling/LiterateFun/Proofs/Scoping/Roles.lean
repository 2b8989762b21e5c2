import LiterateFun.Proofs.Scoping.Sites

/-!
This module contains the roles of the identifiers of a program, in the order of its source, and
their connection to the scope tree.
-/

namespace LiterateFun

inductive Role
  /-- It names a class or a function. -/
  | declaration
  /-- It names a method of a class. -/
  | method (owner : String)
  | parameter
  /-- It is the target of a `:=`. -/
  | variable
  /-- It refers to a definition: the class of a method, the target of an assignment or a value. -/
  | reference
deriving DecidableEq, Repr

namespace Role

def isMethod : Role → Bool
  | .method _ => true
  | _ => false

def mark : Role → Identifier → Mark
  | .method owner, x => .definition (owner ++ "::" ++ x.name) x
  | .reference, x => .reference x
  | _, x => .definition x.name x

theorem identifier_mark (r : Role) (x : Identifier) : (r.mark x).identifier = x := by
  cases r <;> rfl

end Role

mutual

def Expr.roles : Expr → List (Role × Identifier)
  | .string _ => []
  | .number _ => []
  | .identifier x => [(.reference, x)]
  | .binary _ left right => left.roles ++ right.roles
  | .call callee arguments => callee.roles ++ Expr.rolesList arguments
  | .assign target value => target.roles ++ value.roles
  | .declare x value => (.variable, x) :: value.roles

def Expr.rolesList : List Expr → List (Role × Identifier)
  | [] => []
  | e :: es => e.roles ++ Expr.rolesList es

end

def parameterRoles (parameters : List Identifier) : List (Role × Identifier) :=
  parameters.map fun x => (.parameter, x)

mutual

def Statement.roles : Statement → List (Role × Identifier)
  | .expression value => value.roles
  | .return value => value.roles
  | .conditional condition consequent none => condition.roles ++ blockRoles consequent
  | .conditional condition consequent (some alternative) =>
    condition.roles ++ blockRoles consequent ++ blockRoles alternative
  | .declaration d => d.roles

def Declaration.roles : Declaration → List (Role × Identifier)
  | .class name body => (.declaration, name) :: blockRoles body
  | .function name parameters body =>
    (.declaration, name) :: parameterRoles parameters ++ blockRoles body
  | .method owner name parameters body =>
    (.reference, owner) :: (.method owner.name, name) :: parameterRoles parameters ++
      blockRoles body

def blockRoles : List Statement → List (Role × Identifier)
  | [] => []
  | s :: b => s.roles ++ blockRoles b

end

mutual

theorem Expr.map_snd_roles (e : Expr) : e.roles.map Prod.snd = e.identifiers := by
  match e with
  | .string _ => rfl
  | .number _ => rfl
  | .identifier x => rfl
  | .binary _ left right =>
    rw [Expr.roles, List.map_append, left.map_snd_roles, right.map_snd_roles, Expr.identifiers]
  | .call callee arguments =>
    rw [Expr.roles, List.map_append, callee.map_snd_roles, Expr.map_snd_rolesList, Expr.identifiers]
  | .assign target value =>
    rw [Expr.roles, List.map_append, target.map_snd_roles, value.map_snd_roles, Expr.identifiers]
  | .declare x value => rw [Expr.roles, List.map_cons, value.map_snd_roles, Expr.identifiers]

theorem Expr.map_snd_rolesList (es : List Expr) :
    (Expr.rolesList es).map Prod.snd = Expr.identifiersList es := by
  match es with
  | [] => rfl
  | e :: es =>
    rw [Expr.rolesList, List.map_append, e.map_snd_roles, Expr.map_snd_rolesList,
      Expr.identifiersList]

end

theorem map_snd_parameterRoles (parameters : List Identifier) :
    (parameterRoles parameters).map Prod.snd = parameters := by
  rw [parameterRoles, List.map_map]
  exact List.map_id _

mutual

theorem Statement.map_snd_roles (s : Statement) : s.roles.map Prod.snd = s.identifiers := by
  match s with
  | .expression value => exact value.map_snd_roles
  | .return value => exact value.map_snd_roles
  | .conditional condition consequent none =>
    rw [Statement.roles, List.map_append, condition.map_snd_roles, map_snd_blockRoles,
      Statement.identifiers]
  | .conditional condition consequent (some alternative) =>
    rw [Statement.roles, List.map_append, List.map_append, condition.map_snd_roles,
      map_snd_blockRoles, map_snd_blockRoles, Statement.identifiers]
  | .declaration d => exact d.map_snd_roles

theorem Declaration.map_snd_roles (d : Declaration) : d.roles.map Prod.snd = d.identifiers := by
  match d with
  | .class name body =>
    rw [Declaration.roles, List.map_cons, map_snd_blockRoles, Declaration.identifiers]
  | .function name parameters body =>
    rw [Declaration.roles, List.map_append, List.map_cons, map_snd_parameterRoles,
      map_snd_blockRoles, Declaration.identifiers]
  | .method owner name parameters body =>
    rw [Declaration.roles, List.map_append, List.map_cons, List.map_cons, map_snd_parameterRoles,
      map_snd_blockRoles, Declaration.identifiers]

theorem map_snd_blockRoles (b : List Statement) :
    (blockRoles b).map Prod.snd = blockIdentifiers b := by
  match b with
  | [] => rfl
  | s :: b =>
    rw [blockRoles, List.map_append, s.map_snd_roles, map_snd_blockRoles, blockIdentifiers]

end

def roleMarks (roles : List (Role × Identifier)) : List Mark :=
  roles.map fun p => p.1.mark p.2

theorem roleMarks_append (roles₁ roles₂ : List (Role × Identifier)) :
    roleMarks (roles₁ ++ roles₂) = roleMarks roles₁ ++ roleMarks roles₂ :=
  List.map_append

mutual

theorem Expr.roleMarks_perm (e : Expr) : (roleMarks e.roles).Perm (marksOf e.items) := by
  match e with
  | .string _ => exact .nil
  | .number _ => exact .nil
  | .identifier x => exact .refl _
  | .binary _ left right =>
    rw [Expr.roles, roleMarks_append, Expr.items, marksOf_append]
    exact left.roleMarks_perm.append right.roleMarks_perm
  | .call callee arguments =>
    rw [Expr.roles, roleMarks_append, Expr.items, marksOf_append]
    exact callee.roleMarks_perm.append (Expr.roleMarks_perm_list arguments)
  | .assign target value =>
    rw [Expr.roles, roleMarks_append, Expr.items, marksOf_append]
    exact target.roleMarks_perm.append value.roleMarks_perm
  | .declare x value =>
    -- A `:=` is written before its value and bound after it.
    rw [Expr.roles, Expr.items, marksOf_append, marksOf_singleton]
    exact (value.roleMarks_perm.cons _).trans (List.perm_append_singleton _ _).symm

theorem Expr.roleMarks_perm_list (es : List Expr) :
    (roleMarks (Expr.rolesList es)).Perm (marksOf (Expr.itemsList es)) := by
  match es with
  | [] => exact .nil
  | e :: es =>
    rw [Expr.rolesList, roleMarks_append, Expr.itemsList, marksOf_append]
    exact e.roleMarks_perm.append (Expr.roleMarks_perm_list es)

end

theorem roleMarks_parameterRoles (parameters : List Identifier) :
    roleMarks (parameterRoles parameters) = declaredMarks (parametersDeclared parameters) := by
  simp [roleMarks, parameterRoles, declaredMarks, parametersDeclared, Role.mark]

theorem roleMarks_callable_perm {parameters : List Identifier} {body : Block}
    (h : (roleMarks (blockRoles body)).Perm body.tree.marks) :
    (roleMarks (parameterRoles parameters ++ blockRoles body)).Perm
      (declaredMarks (parametersDeclared parameters) ++ body.tree.marks) := by
  rw [roleMarks_append, roleMarks_parameterRoles]
  exact h.append_left _

/-- The marks of a declaration, of which the name belongs to the scope around it. -/
def Declaration.marks (d : Declaration) : List Mark :=
  .definition d.qualifiedName d.name :: marksOf d.items

theorem Block.hoisted_cons_eq (s : Statement) (b : Block) :
    Block.hoisted (s :: b) = Block.hoisted [s] ++ b.hoisted := by
  cases s <;> rfl

mutual

theorem Statement.roleMarks_perm (s : Statement) :
    (roleMarks s.roles).Perm (declaredMarks (Block.hoisted [s]) ++ marksOf s.items) := by
  match s with
  | .expression value => exact value.roleMarks_perm
  | .return value => exact value.roleMarks_perm
  | .conditional condition consequent none =>
    rw [Statement.roles, roleMarks_append, marksOf_conditional_none]
    exact condition.roleMarks_perm.append (roleMarks_blockRoles_perm consequent)
  | .conditional condition consequent (some alternative) =>
    rw [Statement.roles, roleMarks_append, roleMarks_append, marksOf_conditional_some]
    exact (condition.roleMarks_perm.append (roleMarks_blockRoles_perm consequent)).append
      (roleMarks_blockRoles_perm alternative)
  | .declaration d => exact d.roleMarks_perm

theorem Declaration.roleMarks_perm (d : Declaration) : (roleMarks d.roles).Perm d.marks := by
  match d with
  | .class name body =>
    rw [Declaration.roles, Declaration.marks, Declaration.items, marksOf_singleton]
    exact (roleMarks_blockRoles_perm body).cons _
  | .function name parameters body =>
    rw [Declaration.marks, marksOf_function]
    exact (roleMarks_callable_perm (roleMarks_blockRoles_perm body)).cons _
  | .method owner name parameters body =>
    -- The class is written first, but the name of the method is bound before it.
    have hbody : (roleMarks (parameterRoles parameters ++ blockRoles body)).Perm
        (marksOf (Declaration.function name parameters body).items) := by
      rw [marksOf_function]
      exact roleMarks_callable_perm (roleMarks_blockRoles_perm body)
    exact ((hbody.cons _).cons _).trans (.swap _ _ _)

theorem roleMarks_blockRoles_perm (b : List Statement) :
    (roleMarks (blockRoles b)).Perm (Block.tree b).marks := by
  match b with
  | [] => exact .nil
  | s :: b =>
    -- All declarations of the block come before what is in its statements.
    have hperm := s.roleMarks_perm.append (roleMarks_blockRoles_perm b)
    have htree : (Block.tree (s :: b)).marks =
        declaredMarks (Block.hoisted [s]) ++ (declaredMarks (Block.hoisted b) ++
          (marksOf s.items ++ marksOf (blockItems b))) := by
      rw [Block.tree, Item.marks, Block.hoisted_cons_eq, declaredMarks, List.map_append, blockItems,
        marksOf_append, List.append_assoc]
      rfl
    rw [blockRoles, roleMarks_append, htree]
    rw [Block.tree, Item.marks, List.append_assoc] at hperm
    exact hperm.trans ((List.perm_append_comm_assoc _ _ _).append_left _)

end

theorem mem_blockIdentifiers_iff {b : Block} {x : Identifier} :
    x ∈ blockIdentifiers b ↔ ∃ m ∈ b.tree.marks, m.identifier = x := by
  have hmarks : (b.tree.marks.map Mark.identifier).Perm (blockIdentifiers b) := by
    refine ((roleMarks_blockRoles_perm b).symm.map _).trans (.of_eq ?_)
    rw [roleMarks, List.map_map, ← map_snd_blockRoles]
    exact List.map_congr_left fun p _ => p.1.identifier_mark p.2
  rw [← hmarks.mem_iff, List.mem_map]

end LiterateFun
