import LiterateFun.Proofs.Emission.Compiled
import LiterateFun.Proofs.Lowering.Contents
import LiterateFun.Proofs.Naming.References

/-!
This module contains the classes of compiled programs. A class of the program has one class in the
script, in the code of its block, which has the methods of this block that give its name as that of
their class.
-/

namespace LiterateFun

open Lowering Script Resolution Resolution.Session

namespace Script

def Statement.isClass : Statement → Bool
  | .class .. => true
  | _ => false

def Statement.hasConstructor : Statement → Bool
  | .class _ (some _) _ => true
  | _ => false

/-- The classes that stand directly in a sequence of statements, each with the whole sequence. -/
def ownClasses (code : List Statement) : List (List Statement × Statement) :=
  (code.filter Statement.isClass).map fun c => (code, c)

/-- The classes of a script at any depth, each with the statements among which it stands. -/
def classes (script : List Statement) : List (List Statement × Statement) :=
  (sequences script).flatMap ownClasses

end Script

structure ClassSite where
  block : Block
  name : Identifier
  body : Block

def Statement.classSite? (block : Block) : Statement → Option ClassSite
  | .declaration (.class name body) => some { block, name, body }
  | _ => none

def classSites (b : Block) : List ClassSite :=
  (([], b) :: blocksIn b).flatMap fun p => p.2.filterMap (Statement.classSite? p.2)

def Statement.lowerMethod? (ids : List Nat) (select : Identifier → Bool) :
    Statement → Option Script.Method
  | .declaration (.method owner name parameters body) =>
    if select owner then
      some (.mk name.name (parameters.map Identifier.name) (Block.lower ids body))
    else
      none
  | _ => none

def Block.methodsNamed (ids : List Nat) (b : Block) (owner : String) : List Script.Method :=
  b.filterMap (Statement.lowerMethod? ids fun x => x.name = owner)

def ClassSite.lower (ids : List Nat) (site : ClassSite) (methods : List Script.Method) :
    Script.Statement :=
  .class site.name.name (some (site.body.lower ids)) methods

/-- The classes of a script are those of a program, where `ids` are the bindings of its `:=`. -/
structure KeepsClasses (ids : List Nat) (b : Block) (script : List Script.Statement) : Prop where
  /-- Every class has one class in the code of its block, with its constructor and the methods of
  the block that have its name. -/
  declared : ((Script.classes script).filter fun p => p.2.hasConstructor).Perm
    ((classSites b).map fun site =>
      (site.block.lower ids, site.lower ids (site.block.methodsNamed ids site.name.name)))
  /-- The other classes have no constructor. They stand in the code of a block that has methods, but
  no class of their name. -/
  undeclared : ∀ code name methods, (code, .class name none methods) ∈ Script.classes script →
    ∃ p ∈ ([], b) :: blocksIn b, code = p.2.lower ids ∧ methods = p.2.methodsNamed ids name ∧
      name ∈ p.2.flatMap Statement.owners ∧ name ∉ p.2.flatMap Statement.classNames
  /-- A method of the block is bound to the class if it has its name and no variable of the name
  was introduced in the block before. -/
  bound : ∀ site ∈ classSites b, ∀ before owner name parameters body after,
    site.block = before ++ .declaration (.method owner name parameters body) :: after →
      (owner.id = site.name.id ↔ owner.name = site.name.name ∧
        ∀ y ∈ before.flatMap Statement.targets, y.name ≠ owner.name)

namespace Lowering.Piece

variable {pieces : List Piece}

theorem hasConstructor_gather (pieces : List Piece) (name : String) :
    (gather pieces name).hasConstructor ↔ name ∈ pieces.flatMap classNames := by
  have hsome : (gather pieces name).hasConstructor =
      (pieces.filterMap (constructor? name)).getLast?.isSome := by
    rw [gather]
    cases (pieces.filterMap (constructor? name)).getLast? <;> rfl
  rw [hsome, List.getLast?_isSome, ← List.length_pos_iff, List.length_pos_iff_exists_mem]
  simp only [List.mem_filterMap, constructor?_eq_some_iff, List.mem_flatMap]
  constructor
  · rintro ⟨body, p, hp, rfl⟩
    exact ⟨_, hp, List.mem_singleton_self name⟩
  · rintro ⟨p, hp, hname⟩
    cases p with
    | «class» name' body =>
      rw [List.mem_singleton.1 hname]
      exact ⟨body, _, hp, rfl⟩
    | function => cases hname
    | method => cases hname

theorem filter_hasConstructor_gather (hnodup : (pieces.flatMap classNames).Nodup) :
    (((pieces.filterMap className?).eraseDups.map (gather pieces)).filter
        Statement.hasConstructor).Perm
      ((pieces.flatMap classNames).map (gather pieces)) := by
  rw [List.filter_map]
  apply List.Perm.map
  rw [List.perm_ext_iff_of_nodup ((nodup_eraseDups _).filter _) hnodup]
  intro name
  rw [List.mem_filter, List.mem_eraseDups, mem_filterMap_className?, Function.comp_apply,
    hasConstructor_gather]
  exact and_iff_right_of_imp .inl

theorem filter_isClass_arrange (pieces : List Piece) :
    (arrange pieces).filter Statement.isClass =
      (pieces.filterMap className?).eraseDups.map (gather pieces) := by
  have hfunctions : (pieces.filterMap function?).filter Statement.isClass = [] := by
    rw [List.filter_eq_nil_iff]
    intro s hs
    obtain ⟨p, -, hp⟩ := List.mem_filterMap.1 hs
    cases p <;> cases hp
    exact Bool.false_ne_true
  have hclasses : ∀ s ∈ (pieces.filterMap className?).eraseDups.map (gather pieces),
      Statement.isClass s := by
    intro s hs
    obtain ⟨name, -, rfl⟩ := List.mem_map.1 hs
    rfl
  rw [arrange, List.filter_append, hfunctions, List.append_nil, List.filter_eq_self.2 hclasses]

end Lowering.Piece

section

variable {ids : List Nat}

theorem Expr.ownClasses_lower (ids : List Nat) (e : Expr) (st : Lowering.State) :
    ownClasses (e.lower ids st).1.code = [] := by
  have hnone : (e.lower ids st).1.code.filter Statement.isClass = [] := by
    rw [List.filter_eq_nil_iff]
    intro c hc
    have hsimple := e.isSimple_lower ids st c hc
    cases c <;> first | exact Bool.false_ne_true | cases hsimple
  rw [ownClasses, hnone]
  rfl

theorem Statement.filter_isClass_lower (st : Statement) (ls : Lowering.State) :
    (st.lower ids ls).1.filter Script.Statement.isClass = [] := by
  have hexpression : ∀ (e : Expr) (ls : Lowering.State),
      (e.lower ids ls).1.code.filter Script.Statement.isClass = [] := by
    intro e ls
    exact List.map_eq_nil_iff.1 (e.ownClasses_lower ids ls)
  cases st with
  | expression value =>
    simp [Statement.lower, bind_apply, pure_apply, hexpression, Script.Statement.isClass]
  | «return» value =>
    simp [Statement.lower, bind_apply, pure_apply, hexpression, Script.Statement.isClass]
  | conditional condition consequent alternative => cases alternative <;> rfl
  | declaration d => rfl

theorem filter_isClass_lowerStatements (ids : List Nat) (b : List Statement) (ls : Lowering.State) :
    (lowerStatements ids b ls).1.filter Script.Statement.isClass = [] := by
  induction b generalizing ls with
  | nil => rfl
  | cons st b ih =>
    simp only [lowerStatements, bind_apply, pure_apply, List.filter_append,
      st.filter_isClass_lower, ih, List.append_nil]

theorem filter_isClass_lower (b : Block) :
    (b.lower ids).filter Script.Statement.isClass =
      ((lowerDeclarations ids b).filterMap Piece.className?).eraseDups.map
        (Piece.gather (lowerDeclarations ids b)) := by
  have hstatements := filter_isClass_lowerStatements ids b {}
  rw [Block.lower, assemble, List.filter_append, Piece.filter_isClass_arrange]
  exact (congrArg _ hstatements).trans (List.append_nil _)

theorem filterMap_method?_lowerDeclarations (b : Block) (owner : String) :
    (lowerDeclarations ids b).filterMap (Piece.method? owner) = b.methodsNamed ids owner := by
  rw [Block.methodsNamed, lowerDeclarations_eq_map, List.filterMap_map, List.filterMap_filterMap]
  congr 1
  funext st
  cases st with
  | declaration d =>
    cases d with
    | method => simp [Statement.declaration?, Statement.lowerMethod?, Declaration.lower,
        Piece.method?, Block.lower]
    | _ => rfl
  | _ => rfl

theorem mem_lowerDeclarations {b : Block} {d : Declaration} (h : .declaration d ∈ b) :
    d.lower ids ∈ lowerDeclarations ids b := by
  rw [lowerDeclarations_eq_map]
  exact List.mem_map_of_mem (List.mem_filterMap.2 ⟨_, h, rfl⟩)

theorem Statement.classSite?_eq_some_iff {block : Block} {st : Statement} {site : ClassSite} :
    st.classSite? block = some site ↔
      st = .declaration (.class site.name site.body) ∧ block = site.block := by
  constructor
  · intro h
    cases st with
    | declaration d =>
      cases d with
      | «class» name body =>
        cases h
        exact ⟨rfl, rfl⟩
      | _ => cases h
    | _ => cases h
  · rintro ⟨rfl, rfl⟩
    rfl

theorem map_name_filterMap_classSite? (block b : Block) :
    (b.filterMap (Statement.classSite? block)).map (fun site => site.name.name) =
      b.flatMap Statement.classNames := by
  rw [List.filterMap_eq_flatMap_toList, List.map_flatMap]
  congr 1
  funext st
  cases st with
  | declaration d => cases d <;> rfl
  | _ => rfl

theorem nodup_classNames_lowerDeclarations (ids : List Nat) {b : Block}
    (hclasses : (b.flatMap Statement.classNames).Nodup) :
    ((lowerDeclarations ids b).flatMap Piece.classNames).Nodup := by
  rw [flatMap_classNames_lowerDeclarations]
  exact hclasses

theorem filter_hasConstructor_lower {b : Block}
    (hclasses : (b.flatMap Statement.classNames).Nodup) :
    ((ownClasses (b.lower ids)).filter fun p => p.2.hasConstructor).Perm
      ((b.filterMap (Statement.classSite? b)).map fun site =>
        (site.block.lower ids, site.lower ids (site.block.methodsNamed ids site.name.name))) := by
  have hnodup := nodup_classNames_lowerDeclarations ids hclasses
  have hgather : ∀ site ∈ b.filterMap (Statement.classSite? b),
      (b.lower ids, Piece.gather (lowerDeclarations ids b) site.name.name) =
        (site.block.lower ids,
          site.lower ids (site.block.methodsNamed ids site.name.name)) := by
    intro site hsite
    obtain ⟨st, hst, hsome⟩ := List.mem_filterMap.1 hsite
    obtain ⟨rfl, hblock⟩ := Statement.classSite?_eq_some_iff.1 hsome
    rw [← hblock, Piece.gather_of_mem hnodup (mem_lowerDeclarations hst),
      filterMap_method?_lowerDeclarations]
    rfl
  rw [ownClasses, List.filter_map, filter_isClass_lower]
  refine ((Piece.filter_hasConstructor_gather hnodup).map _).trans (.of_eq ?_)
  rw [flatMap_classNames_lowerDeclarations, ← map_name_filterMap_classSite? b b, List.map_map,
    List.map_map]
  exact List.map_congr_left hgather

theorem of_mem_ownClasses_lower {b : Block} {code : List Script.Statement} {name : String}
    {methods : List Script.Method}
    (h : (code, .class name none methods) ∈ ownClasses (b.lower ids)) :
    code = b.lower ids ∧ methods = b.methodsNamed ids name ∧ name ∈ b.flatMap Statement.owners ∧
      name ∉ b.flatMap Statement.classNames := by
  rw [ownClasses, List.mem_map] at h
  obtain ⟨c, hc, heq⟩ := h
  rw [filter_isClass_lower, List.mem_map] at hc
  obtain ⟨name', hname', rfl⟩ := hc
  rw [List.mem_eraseDups, Piece.mem_filterMap_className?, flatMap_classNames_lowerDeclarations,
    flatMap_owners_lowerDeclarations] at hname'
  have hconstructor := Piece.hasConstructor_gather (lowerDeclarations ids b) name'
  rw [flatMap_classNames_lowerDeclarations] at hconstructor
  rw [Prod.mk.injEq] at heq
  obtain ⟨rfl, hgather⟩ := heq
  have hnone : name' ∉ b.flatMap Statement.classNames := by
    rw [← hconstructor, hgather]
    exact Bool.false_ne_true
  rw [Piece.gather, Statement.class.injEq] at hgather
  obtain ⟨rfl, -, hmethods⟩ := hgather
  refine ⟨rfl, ?_, hname'.resolve_left hnone, hnone⟩
  rw [← hmethods, filterMap_method?_lowerDeclarations]

theorem transfers_ownClasses (ids : List Nat) :
    Transfers (fun as bs : List (List Script.Statement × Script.Statement) => as.Perm bs) ids
      (fun _ => []) (fun _ => []) ownClasses where
  isPartwise := isPartwise_perm _
  class_eq _ _ _ := rfl
  function_eq _ _ _ := rfl
  return_eq _ := rfl
  conditional_eq _ _ _ _ := rfl
  lower _ _ _ := by simp
  expression e st := e.ownClasses_lower ids st

theorem classes_lower_perm (ids : List Nat) {b : Block}
    (hassignable : Assignable (blockSubexpressions b))
    (hclasses : ∀ p ∈ ([], b) :: blocksIn b, (p.2.flatMap Statement.classNames).Nodup) :
    (Script.classes (b.lower ids)).Perm
      ((([], b) :: blocksIn b).flatMap fun p => ownClasses (p.2.lower ids)) := by
  have hperm := Block.transfers_lower (transfers_ownClasses ids) hassignable hclasses
  have hexpected : expected ids (fun _ => []) ownClasses (blockRoots b)
      (([], b) :: blocksIn b) =
        (([], b) :: blocksIn b).flatMap fun p => ownClasses (p.2.lower ids) := by
    simp [expected]
  rw [contents_nil, hexpected] at hperm
  exact hperm

theorem mem_classSites {b : Block} {site : ClassSite} :
    site ∈ classSites b ↔ ∃ p ∈ ([], b) :: blocksIn b, p.2 = site.block ∧
      .declaration (.class site.name site.body) ∈ p.2 := by
  simp only [classSites, List.mem_flatMap, List.mem_filterMap, Statement.classSite?_eq_some_iff]
  constructor
  · rintro ⟨p, hp, st, hst, rfl, hblock⟩
    exact ⟨p, hp, hblock, hst⟩
  · rintro ⟨p, hp, hblock, hst⟩
    exact ⟨p, hp, _, hst, rfl, hblock⟩

variable {globals : List (String × Nat)} {b : Block}

theorem owner_id_iff (h : Resolved globals b) {site : ClassSite} (hsite : site ∈ classSites b)
    {before after : Block} {owner name : Identifier} {parameters : List Identifier} {body : Block}
    (hblock : site.block = before ++ .declaration (.method owner name parameters body) :: after) :
    owner.id = site.name.id ↔ owner.name = site.name.name ∧
      ∀ y ∈ before.flatMap Statement.targets, y.name ≠ owner.name := by
  obtain ⟨p, hp, hpblock, hclass⟩ := mem_classSites.1 hsite
  rw [← hpblock] at hblock
  have hroles := (Block.partOf hp).roles
  obtain ⟨layers, hwithin⟩ := Block.exists_within hp
  have hvisible := (h.wellBound.within hwithin).visible
  have hname : site.name ∈ p.2.flatMap Statement.scopeNames :=
    List.mem_flatMap.2 ⟨_, hclass, List.mem_singleton_self _⟩
  have hdeclaration : (.declaration, site.name) ∈ blockRoles b :=
    hroles (declaration_mem_blockRoles hname)
  have hreference : (.reference, owner) ∈ blockRoles b := by
    have hmethod : .declaration (.method owner name parameters body) ∈ p.2 := by
      simp [hblock]
    exact hroles (Statement.roles_subset_blockRoles hmethod List.mem_cons_self)
  have hcases := owner_cases hvisible hblock (h.nodup_hoisted hp) hname
  constructor
  · intro hid
    have heq := h.wellBound.name_eq_of_id_eq hreference hdeclaration rfl hid
    rcases hcases heq with ⟨-, hnone⟩ | ⟨y, hy, -, hyid⟩
    · exact ⟨heq, hnone⟩
    · have hvariable : (.variable, y) ∈ blockRoles b := by
        apply hroles (variable_mem_blockRoles _)
        rw [hblock, List.flatMap_append]
        exact List.mem_append_left _ hy
      have hrole := h.identified.eq_of_id_eq hvariable hdeclaration (by simp) (by simp)
        (hyid.symm.trans hid)
      cases congrArg Prod.fst hrole
  · rintro ⟨heq, hnone⟩
    rcases hcases heq with ⟨hid, -⟩ | ⟨y, hy, hyname, -⟩
    · exact hid
    · exact absurd hyname (hnone y hy)

theorem keepsClasses_lower (h : Resolved globals b) : KeepsClasses ids b (b.lower ids) := by
  have hperm := classes_lower_perm ids h.assignable fun p => h.nodup_classNames
  constructor
  · refine (hperm.filter _).trans ?_
    rw [List.filter_flatMap, classSites, List.map_flatMap]
    exact List.Perm.flatMap_left _ fun p hp => filter_hasConstructor_lower (h.nodup_classNames hp)
  · intro code name methods hmem
    rw [hperm.mem_iff] at hmem
    obtain ⟨p, hp, hmem⟩ := List.mem_flatMap.1 hmem
    exact ⟨p, hp, of_mem_ownClasses_lower hmem⟩
  · intro site hsite before owner name parameters body after hblock
    exact owner_id_iff h hsite hblock

end

/--
In the code of what is compiled, every class has one class with its constructor, in the code of its
block, and this has the methods of the block that have the name of the class, in their order. A
variable can have taken the name before a method, which is then bound to the variable.
-/
theorem Compiles.keepsClasses {source code : String} {b : Block} (h : Compiles source b code) :
    code = Prelude.script ++ Script.text (b.lower (Generator.ofBlock b).declaredIds) ∧
      Script.Shows Prelude.lines code (b.lower (Generator.ofBlock b).declaredIds) ∧
      KeepsClasses (Generator.ofBlock b).declaredIds b
        (b.lower (Generator.ofBlock b).declaredIds) := by
  obtain ⟨⟨globals, hresolved⟩, hcode⟩ := h.resolved
  exact ⟨hcode, h.shows, keepsClasses_lower hresolved⟩

def Script.Method.name : Script.Method → String
  | .mk name _ _ => name

theorem keepsClasses_regroupedSource :
    ∃ p, compile regroupedSource = .ok p ∧
      Script.Shows Prelude.lines p.code
        (p.program.lower (Generator.ofBlock p.program).declaredIds) ∧
      KeepsClasses (Generator.ofBlock p.program).declaredIds p.program
        (p.program.lower (Generator.ofBlock p.program).declaredIds) ∧
      (classSites p.program).map (fun site => (site.name.id,
        (site.block.methodsNamed [] site.name.name).map Script.Method.name)) =
          [(some 6, ["m"]), (some 10, [])] := by
  obtain ⟨p, hp, hprogram⟩ :=
    exists_compile ofSource_regroupedSource (by decide +kernel) (by decide +kernel)
  obtain ⟨-, hshows, hkeeps⟩ := (Compiles.program hp).keepsClasses
  refine ⟨p, hp, hshows, hkeeps, ?_⟩
  rw [hprogram]
  decide +kernel

def HasBoundMethods (ids : List Nat) (b : Block) (script : List Script.Statement) : Prop :=
  (((Script.classes script).filter fun p => p.2.hasConstructor).map Prod.snd).Perm
    ((classSites b).map fun site => site.lower ids
      ((blockSubstatements b).filterMap (Statement.lowerMethod? ids fun x => x.id = site.name.id)))

def Script.Statement.methodNames : Script.Statement → List String
  | .class _ _ methods => methods.map Script.Method.name
  | _ => []

def scatteredSource : String :=
  "\\class\x7bA\x7d\x7b \x7d if \"c\" \x7b \\fun\x7bA::m\x7d\x7b\x7d\x7b \x7d \x7d"

open Identifier in
def scatteredProgram : Block :=
  [.declaration (.class (placed "A" 7) []),
    .conditional (.string "c")
      [.declaration (.method (placed "A" 27) (placed "m" 30) [] [])] none]

theorem ofSource_scatteredSource : Block.ofSource scatteredSource = .ok scatteredProgram := by
  cbv

def capturedSource : String :=
  "\\class\x7bA\x7d\x7b \x7d A := \"x\"; \\fun\x7bA::m\x7d\x7b\x7d\x7b \x7d"

open Identifier in
def capturedProgram : Block :=
  [.declaration (.class (placed "A" 7) []),
    .expression (.declare (placed "A" 13) (.string "x")),
    .declaration (.method (placed "A" 28) (placed "m" 31) [] [])]

theorem ofSource_capturedSource : Block.ofSource capturedSource = .ok capturedProgram := by
  cbv

theorem HasBoundMethods.methodNames_perm {ids : List Nat} {b : Block}
    {script : List Script.Statement} (h : HasBoundMethods ids b script) :
    (((Script.classes script).filter fun p => p.2.hasConstructor).map
      fun p => p.2.methodNames).Perm
        ((classSites b).map fun site => ((blockSubstatements b).filterMap
          (Statement.lowerMethod? ids fun x => x.id = site.name.id)).map Script.Method.name) := by
  have hnames := h.map Script.Statement.methodNames
  rw [List.map_map, List.map_map] at hnames
  exact hnames

theorem not_hasBoundMethods_of_compile :
    (∃ p, compile scatteredSource = .ok p ∧
      ¬HasBoundMethods (Generator.ofBlock p.program).declaredIds p.program
        (p.program.lower (Generator.ofBlock p.program).declaredIds)) ∧
    ∃ p, compile capturedSource = .ok p ∧
      ¬HasBoundMethods (Generator.ofBlock p.program).declaredIds p.program
        (p.program.lower (Generator.ofBlock p.program).declaredIds) := by
  constructor
  · obtain ⟨p, hp, hprogram⟩ :=
      exists_compile ofSource_scatteredSource (by decide +kernel) (by decide +kernel)
    refine ⟨p, hp, fun h => ?_⟩
    have hnames := h.methodNames_perm
    rw [hprogram] at hnames
    revert hnames
    decide +kernel
  · obtain ⟨p, hp, hprogram⟩ :=
      exists_compile ofSource_capturedSource (by decide +kernel) (by decide +kernel)
    refine ⟨p, hp, fun h => ?_⟩
    have hnames := h.methodNames_perm
    rw [hprogram] at hnames
    revert hnames
    decide +kernel

end LiterateFun
