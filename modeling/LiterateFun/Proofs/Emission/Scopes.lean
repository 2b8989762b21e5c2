import LiterateFun.Proofs.Emission.Reading
import LiterateFun.Proofs.Lowering.Contents

/-!
This module contains the blocks of a program in the layout of its script: the code of every block is
all that stands in a pair of braces.
-/

namespace LiterateFun

open Lowering Script Script.Layout

namespace Script.Layout

mutual

def scopes : Layout → List (List Layout)
  | .line _ => []
  | .braces _ inner => inner :: scopesIn inner

def scopesIn : List Layout → List (List Layout)
  | [] => []
  | layout :: layouts => layout.scopes ++ scopesIn layouts

end

def scopesOf (layouts : List Layout) : List (List Layout) :=
  layouts :: scopesIn layouts

theorem scopesIn_append (layouts layouts' : List Layout) :
    scopesIn (layouts ++ layouts') = scopesIn layouts ++ scopesIn layouts' := by
  induction layouts with
  | nil => rfl
  | cons layout layouts ih => rw [List.cons_append, scopesIn, scopesIn, ih, List.append_assoc]

theorem scopesIn_subset_of_mem {layout : Layout} {layouts : List Layout} (h : layout ∈ layouts) :
    layout.scopes ⊆ scopesIn layouts := by
  obtain ⟨before, after, rfl⟩ := List.append_of_mem h
  rw [scopesIn_append, scopesIn]
  exact List.subset_append_of_subset_right _ (List.subset_append_left _ _)

theorem scopesOf_subset_of_mem {head : List Lexeme} {inner layouts : List Layout}
    (h : .braces head inner ∈ layouts) : scopesOf inner ⊆ scopesIn layouts := by
  have hscopes := scopesIn_subset_of_mem h
  rw [scopes] at hscopes
  exact hscopes

theorem scopesOf_subset_of_mem_of_mem {head head' : List Lexeme}
    {inner inner' layouts : List Layout} (h : .braces head inner ∈ inner')
    (h' : .braces head' inner' ∈ layouts) :
    scopesOf inner ⊆ scopesIn layouts :=
  List.Subset.trans (scopesOf_subset_of_mem h)
    (List.Subset.trans (List.subset_cons_self _ _) (scopesOf_subset_of_mem h'))

end Script.Layout

theorem Script.layouts_subset {s : Script.Statement} {script : List Script.Statement}
    (h : s ∈ script) : s.layouts ⊆ layoutsOf script := by
  obtain ⟨before, after, rfl⟩ := List.append_of_mem h
  rw [layoutsOf_append, layoutsOf]
  exact List.subset_append_of_subset_right _ (List.subset_append_left _ _)

theorem Script.Method.layouts_subset {m : Method} {methods : List Method} (h : m ∈ methods) :
    m.layouts ⊆ methodLayouts methods := by
  induction h with
  | head methods =>
    rw [methodLayouts]
    exact List.subset_append_left _ _
  | tail m' _ ih =>
    rw [methodLayouts]
    exact List.subset_append_of_subset_right _ ih

theorem Script.scopesOf_branch_subset {setup consequent branch : List Script.Statement}
    {condition : Value} {alternative : Option (List Script.Statement)}
    (h : branch ∈ consequent :: alternative.toList) :
    scopesOf (layoutsOf branch) ⊆
      scopesIn (layoutsOf [.conditional setup condition consequent alternative]) := by
  cases alternative with
  | none =>
    obtain rfl := List.mem_singleton.1 h
    rw [layoutsOf, Statement.layouts]
    exact scopesOf_subset_of_mem_of_mem (List.mem_append_right _ List.mem_cons_self)
      List.mem_cons_self
  | some alternative =>
    rw [layoutsOf, Statement.layouts]
    rw [Option.toList_some, List.mem_cons, List.mem_singleton] at h
    rcases h with rfl | rfl
    · exact scopesOf_subset_of_mem_of_mem
        (List.mem_append_left _ (List.mem_append_right _ List.mem_cons_self)) List.mem_cons_self
    · exact scopesOf_subset_of_mem_of_mem (List.mem_append_right _ List.mem_cons_self)
        List.mem_cons_self

namespace Lowering.Piece

def scopes (p : Piece) : List (List Layout) :=
  scopesOf (layoutsOf p.body)

theorem gather_mem_arrange {pieces : List Piece} {p : Piece} (hp : p ∈ pieces) {name : String}
    (hname : p.className? = some name) : gather pieces name ∈ arrange pieces := by
  apply List.mem_append_left
  apply List.mem_map_of_mem
  rw [List.mem_eraseDups]
  exact List.mem_filterMap.2 ⟨p, hp, hname⟩

theorem scopes_subset_arrange {pieces : List Piece}
    (hclasses : (pieces.flatMap classNames).Nodup) {p : Piece} (hp : p ∈ pieces) :
    p.scopes ⊆ scopesIn (layoutsOf (arrange pieces)) := by
  cases p with
  | «class» name body =>
    have hclass := layouts_subset (gather_mem_arrange hp rfl)
    rw [gather_of_mem hclasses hp, Statement.layouts, List.cons_subset] at hclass
    exact scopesOf_subset_of_mem_of_mem (List.mem_append_left _ List.mem_cons_self) hclass.1
  | function name parameters body =>
    have hmem : .function name parameters body ∈ arrange pieces :=
      List.mem_append_right _ (List.mem_filterMap.2 ⟨_, hp, rfl⟩)
    have hfunction := layouts_subset hmem
    rw [Statement.layouts, List.cons_subset] at hfunction
    exact scopesOf_subset_of_mem hfunction.1
  | method owner name parameters body =>
    have hmem : .mk name parameters body ∈ pieces.filterMap (method? owner) :=
      List.mem_filterMap.2 ⟨_, hp, if_pos rfl⟩
    have hmethod := Method.layouts_subset hmem
    rw [Method.layouts, List.cons_subset] at hmethod
    have hclass := layouts_subset (gather_mem_arrange hp rfl)
    rw [gather] at hclass
    cases hconstructor : (pieces.filterMap (constructor? owner)).getLast? with
    | none =>
      rw [hconstructor, Statement.layouts, List.cons_subset] at hclass
      exact scopesOf_subset_of_mem_of_mem hmethod.1 hclass.1
    | some body' =>
      rw [hconstructor, Statement.layouts, List.cons_subset] at hclass
      exact scopesOf_subset_of_mem_of_mem (List.mem_append_right _ hmethod.1) hclass.1

end Lowering.Piece

section

variable {ids : List Nat}

theorem layouts_mem_scopesOf {b : Block} (hclasses : (b.flatMap Statement.classNames).Nodup)
    {names : List Identifier} {p : List Identifier × Block}
    (hinner : p ∈ blocksIn b → layoutsOf (p.2.lower ids) ∈
      (lowerDeclarations ids b).flatMap Piece.scopes ++
        scopesIn (layoutsOf (lowerStatements ids b {}).1))
    (hp : p ∈ (names, b) :: blocksIn b) :
    layoutsOf (p.2.lower ids) ∈ scopesOf (layoutsOf (b.lower ids)) := by
  rcases List.mem_cons.1 hp with rfl | hp
  · exact List.mem_cons_self
  · apply List.mem_cons_of_mem
    have hpieces : ((lowerDeclarations ids b).flatMap Piece.classNames).Nodup := by
      rw [flatMap_classNames_lowerDeclarations]
      exact hclasses
    have hlower : layoutsOf (b.lower ids) =
        layoutsOf (Piece.arrange (lowerDeclarations ids b)) ++
          layoutsOf (lowerStatements ids b {}).1 := layoutsOf_append _ _
    rw [hlower, scopesIn_append]
    rcases List.mem_append.1 (hinner hp) with h | h
    · obtain ⟨piece, hpiece, h⟩ := List.mem_flatMap.1 h
      exact List.mem_append_left _ (Piece.scopes_subset_arrange hpieces hpiece h)
    · exact List.mem_append_right _ h

mutual

theorem Statement.layouts_mem_scopes (st : Statement)
    (hclasses : ∀ p ∈ st.blocks, (p.2.flatMap Statement.classNames).Nodup)
    {p : List Identifier × Block} (hp : p ∈ st.blocks) (ls : Lowering.State) :
    layoutsOf (p.2.lower ids) ∈ (lowerDeclarations ids [st]).flatMap Piece.scopes ++
      scopesIn (layoutsOf (st.lower ids ls).1) := by
  match st with
  | .expression value => cases hp
  | .return value => cases hp
  | .declaration d =>
    apply List.mem_append_left
    rw [lowerDeclarations, lowerDeclarations, List.flatMap_singleton]
    exact d.layouts_mem_scopes hclasses hp
  | .conditional condition consequent none =>
    rw [Statement.blocks, List.forall_mem_cons] at hclasses
    have hconsequent := layouts_mem_scopesOf hclasses.1
      (fun hp => layouts_mem_scopes consequent hclasses.2 hp {}) hp
    apply List.mem_append_right
    exact scopesOf_branch_subset List.mem_cons_self hconsequent
  | .conditional condition consequent (some alternative) =>
    rw [Statement.blocks, List.forall_mem_append, List.forall_mem_cons, List.forall_mem_cons]
      at hclasses
    rw [Statement.blocks, List.mem_append] at hp
    apply List.mem_append_right
    rcases hp with hp | hp
    · have hconsequent := layouts_mem_scopesOf hclasses.1.1
        (fun hp => layouts_mem_scopes consequent hclasses.1.2 hp {}) hp
      exact scopesOf_branch_subset List.mem_cons_self hconsequent
    · have halternative := layouts_mem_scopesOf hclasses.2.1
        (fun hp => layouts_mem_scopes alternative hclasses.2.2 hp {}) hp
      exact scopesOf_branch_subset (List.mem_cons_of_mem _ List.mem_cons_self) halternative

theorem Declaration.layouts_mem_scopes (d : Declaration)
    (hclasses : ∀ p ∈ d.blocks, (p.2.flatMap Statement.classNames).Nodup)
    {p : List Identifier × Block} (hp : p ∈ d.blocks) :
    layoutsOf (p.2.lower ids) ∈ (d.lower ids).scopes := by
  match d with
  | .class name body =>
    rw [Declaration.blocks, List.forall_mem_cons] at hclasses
    exact layouts_mem_scopesOf hclasses.1
      (fun hp => layouts_mem_scopes body hclasses.2 hp {}) hp
  | .function name parameters body =>
    rw [Declaration.blocks, List.forall_mem_cons] at hclasses
    exact layouts_mem_scopesOf hclasses.1
      (fun hp => layouts_mem_scopes body hclasses.2 hp {}) hp
  | .method owner name parameters body =>
    rw [Declaration.blocks, List.forall_mem_cons] at hclasses
    exact layouts_mem_scopesOf hclasses.1
      (fun hp => layouts_mem_scopes body hclasses.2 hp {}) hp

theorem layouts_mem_scopes (b : List Statement)
    (hclasses : ∀ p ∈ blocksIn b, (p.2.flatMap Statement.classNames).Nodup)
    {p : List Identifier × Block} (hp : p ∈ blocksIn b) (ls : Lowering.State) :
    layoutsOf (p.2.lower ids) ∈ (lowerDeclarations ids b).flatMap Piece.scopes ++
      scopesIn (layoutsOf (lowerStatements ids b ls).1) := by
  match b with
  | [] => cases hp
  | st :: b =>
    rw [blocksIn, List.forall_mem_append] at hclasses
    have hcode : layoutsOf (lowerStatements ids (st :: b) ls).1 =
        layoutsOf (st.lower ids ls).1 ++ layoutsOf (lowerStatements ids b (st.lower ids ls).2).1 :=
      layoutsOf_append _ _
    rw [lowerDeclarations_cons, List.flatMap_append, hcode, scopesIn_append]
    rcases List.mem_append.1 hp with hp | hp
    · have hst := st.layouts_mem_scopes hclasses.1 hp ls
      simp only [List.mem_append] at hst ⊢
      tauto
    · have hb := layouts_mem_scopes b hclasses.2 hp (st.lower ids ls).2
      simp only [List.mem_append] at hb ⊢
      tauto

end

theorem Block.layouts_mem_scopesOf {b : Block}
    (hclasses : ∀ p ∈ ([], b) :: blocksIn b, (p.2.flatMap Statement.classNames).Nodup)
    {p : List Identifier × Block} (hp : p ∈ ([], b) :: blocksIn b) :
    layoutsOf (p.2.lower ids) ∈ scopesOf (layoutsOf (b.lower ids)) := by
  rw [List.forall_mem_cons] at hclasses
  exact LiterateFun.layouts_mem_scopesOf hclasses.1
    (fun hp => layouts_mem_scopes b hclasses.2 hp {}) hp

end

end LiterateFun
