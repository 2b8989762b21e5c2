import LiterateFun.Proofs.Basics
import LiterateFun.Proofs.Naming.Scopes

/-!
This module contains the scopes of the declarations of a block after they are arranged as classes
and functions. If every method stands in the block of its class, the arrangement declares the names
of the classes and functions, each of them once.
-/

namespace LiterateFun.Lowering

namespace Piece

open Script

def region : Piece → Region String
  | .class _ body => Script.region [] body
  | .function _ parameters body => Script.region (parameters.map spell) body
  | .method _ _ parameters body => Script.region (parameters.map spell) body

def scopeNames : Piece → List String
  | .class name _ => [name]
  | .function name _ _ => [name]
  | .method .. => []

def classNames : Piece → List String
  | .class name _ => [name]
  | _ => []

def owners : Piece → List String
  | .method owner _ _ _ => [owner]
  | _ => []

structure Regular (pieces : List Piece) : Prop where
  nodup : (pieces.flatMap classNames).Nodup
  owners : pieces.flatMap owners ⊆ pieces.flatMap classNames

theorem mem_filterMap_className? {pieces : List Piece} {name : String} :
    name ∈ pieces.filterMap className? ↔
      name ∈ pieces.flatMap classNames ∨ name ∈ pieces.flatMap owners := by
  rw [List.mem_filterMap, List.mem_flatMap, List.mem_flatMap, ← exists_or]
  apply exists_congr
  intro p
  cases p <;> simp [className?, classNames, owners, eq_comm]

theorem Regular.eraseDups_perm {pieces : List Piece} (h : Regular pieces) :
    (pieces.filterMap className?).eraseDups.Perm (pieces.flatMap classNames) := by
  rw [List.perm_ext_iff_of_nodup (nodup_eraseDups _) h.nodup]
  intro name
  rw [List.mem_eraseDups, mem_filterMap_className?]
  exact or_iff_left_of_imp fun howner => h.owners howner

theorem Regular.declaredNames_arrange {pieces : List Piece} (h : Regular pieces) :
    ((arrange pieces).flatMap Statement.declaredNames).Perm
      ((pieces.flatMap scopeNames).map spell) := by
  have hclasses : ((pieces.filterMap className?).eraseDups.map (gather pieces)).flatMap
      Statement.declaredNames = (pieces.filterMap className?).eraseDups.map spell := by
    rw [List.flatMap_map, List.map_eq_flatMap]
    rfl
  have hfunctions : (pieces.filterMap function?).flatMap Statement.declaredNames =
      pieces.flatMap fun p => p.function?.toList.flatMap Statement.declaredNames := by
    rw [List.filterMap_eq_flatMap_toList, List.flatMap_assoc]
  have hnames : (pieces.flatMap scopeNames).map spell =
      pieces.flatMap fun p => p.classNames.map spell ++
        p.function?.toList.flatMap Statement.declaredNames := by
    rw [List.map_flatMap]
    congr 1
    funext p
    cases p <;> rfl
  rw [arrange, List.flatMap_append, hclasses, hfunctions, hnames]
  refine List.Perm.trans ?_ (List.flatMap_append_perm pieces _ _)
  rw [← List.map_flatMap]
  exact (h.eraseDups_perm.map spell).append_right _

theorem usedNames_arrange (pieces : List Piece) :
    (arrange pieces).flatMap Statement.usedNames = [] := by
  rw [List.flatMap_eq_nil_iff]
  intro s hs
  rw [arrange, List.mem_append, List.mem_map, List.mem_filterMap] at hs
  rcases hs with ⟨name, -, rfl⟩ | ⟨p, -, hp⟩
  · rfl
  · cases p <;> cases hp
    rfl

theorem length_constructors {pieces : List Piece} (h : (pieces.flatMap classNames).Nodup)
    (name : String) : (pieces.filterMap (constructor? name)).length ≤ 1 := by
  have hcount : ∀ pieces : List Piece, (pieces.filterMap (constructor? name)).length =
      (pieces.flatMap classNames).count name := by
    intro pieces
    induction pieces with
    | nil => rfl
    | cons p pieces ih =>
      rw [List.flatMap_cons, List.count_append, ← ih, List.filterMap_cons]
      cases p with
      | «class» name' body =>
        by_cases hname : name' = name <;> simp [constructor?, classNames, hname, Nat.add_comm]
      | function => simp [constructor?, classNames]
      | method => simp [constructor?, classNames]
  rw [hcount]
  exact List.nodup_iff_count_le_one.1 h name

theorem toList_getLast?_constructors {pieces : List Piece} (h : (pieces.flatMap classNames).Nodup)
    (name : String) : (pieces.filterMap (constructor? name)).getLast?.toList =
      pieces.filterMap (constructor? name) := by
  have hlength := length_constructors h name
  match hlist : pieces.filterMap (constructor? name), hlength with
  | [], _ => rfl
  | [body], _ => rfl

theorem constructor?_eq_some_iff {name : String} {p : Piece} {body : List Script.Statement} :
    p.constructor? name = some body ↔ p = .class name body := by
  cases p with
  | «class» name' body' => simp [constructor?]
  | function => simp [constructor?]
  | method => simp [constructor?]

theorem gather_of_mem {pieces : List Piece} (hnodup : (pieces.flatMap classNames).Nodup)
    {name : String} {body : List Script.Statement} (h : .class name body ∈ pieces) :
    gather pieces name = .class name (some body) (pieces.filterMap (method? name)) := by
  have hmem : body ∈ pieces.filterMap (constructor? name) :=
    List.mem_filterMap.2 ⟨_, h, constructor?_eq_some_iff.2 rfl⟩
  have hlength := length_constructors hnodup name
  obtain ⟨body', hbody'⟩ := List.length_eq_one_iff.1
    (Nat.le_antisymm hlength (List.length_pos_of_mem hmem))
  rw [hbody', List.mem_singleton] at hmem
  rw [gather, hbody', hmem]
  rfl

theorem flatMap_if_eq {α : Type} {names : List String} (hnames : names.Nodup) {name : String}
    (hname : name ∈ names) (rs : List α) :
    (names.flatMap fun other => if name = other then rs else []) = rs := by
  induction names with
  | nil => cases hname
  | cons other names ih =>
    rw [List.nodup_cons] at hnames
    rw [List.flatMap_cons]
    by_cases heq : name = other
    · have hrest : (names.flatMap fun other => if name = other then rs else []) = [] := by
        rw [List.flatMap_eq_nil_iff]
        intro other' hother'
        rw [if_neg]
        rintro rfl
        exact hnames.1 (heq ▸ hother')
      rw [if_pos heq, hrest, List.append_nil]
    · rw [if_neg heq, List.nil_append]
      exact ih hnames.2 ((List.mem_cons.1 hname).resolve_left heq)

theorem flatMap_className_perm {α : Type} (f : Piece → List α) {names : List String}
    (hnames : names.Nodup) {pieces : List Piece}
    (h : ∀ p ∈ pieces, ∀ name, p.className? = some name → name ∈ names) :
    (names.flatMap fun name =>
      pieces.flatMap fun p => if p.className? = some name then f p else []).Perm
      (pieces.flatMap fun p => if p.className?.isSome then f p else []) := by
  induction pieces with
  | nil => simp
  | cons p pieces ih =>
    rw [List.forall_mem_cons] at h
    simp only [List.flatMap_cons]
    refine (List.flatMap_append_perm names _ _).symm.trans (.append (.of_eq ?_) (ih h.2))
    cases hp : p.className? with
    | none => simp
    | some name =>
      simp only [Option.some.injEq, Option.isSome_some, if_true]
      exact flatMap_if_eq hnames (h.1 name hp) _

def ofMethod (owner : String) : Method → Piece
  | .mk name parameters body => .method owner name parameters body

structure Collects {α : Type} (F : Script.Statement → List α) (f : Piece → List α) : Prop where
  class_eq : ∀ name constructor methods, F (.class name constructor methods) =
    constructor.toList.flatMap (fun body => f (.class name body)) ++
      methods.flatMap fun m => f (ofMethod name m)
  function_eq : ∀ name parameters body,
    F (.function name parameters body) = f (.function name parameters body)

section

variable {α : Type} {F : Script.Statement → List α} {f : Piece → List α} {pieces : List Piece}

theorem Collects.gather_perm (h : Collects F f) (hnodup : (pieces.flatMap classNames).Nodup)
    (name : String) :
    (F (gather pieces name)).Perm
      (pieces.flatMap fun p => if p.className? = some name then f p else []) := by
  rw [gather, h.class_eq, toList_getLast?_constructors hnodup, List.filterMap_eq_flatMap_toList,
    List.filterMap_eq_flatMap_toList, List.flatMap_assoc, List.flatMap_assoc]
  refine (List.flatMap_append_perm pieces _ _).trans (.of_eq ?_)
  congr 1
  funext p
  cases p with
  | «class» name' body =>
    by_cases hname : name' = name <;> simp [constructor?, method?, className?, hname]
  | function => simp [constructor?, method?, className?]
  | method owner name' parameters body =>
    by_cases hname : owner = name <;> simp [constructor?, method?, className?, hname, ofMethod]

theorem Collects.arrange_perm (h : Collects F f) (hnodup : (pieces.flatMap classNames).Nodup) :
    ((arrange pieces).flatMap F).Perm (pieces.flatMap f) := by
  have hfunctions : (pieces.filterMap function?).flatMap F =
      pieces.flatMap fun p => p.function?.toList.flatMap F := by
    rw [List.filterMap_eq_flatMap_toList, List.flatMap_assoc]
  have hpieces : pieces.flatMap f = pieces.flatMap fun p =>
      (if p.className?.isSome then f p else []) ++ p.function?.toList.flatMap F := by
    congr 1
    funext p
    cases p <;> simp [className?, function?, h.function_eq]
  rw [arrange, List.flatMap_append, List.flatMap_map, hfunctions, hpieces]
  refine List.Perm.trans ?_ (List.flatMap_append_perm pieces _ _)
  apply List.Perm.append_right
  refine (List.Perm.flatMap_left _ fun name _ => h.gather_perm hnodup name).trans ?_
  apply flatMap_className_perm f (nodup_eraseDups _)
  intro p hp name hname
  rw [List.mem_eraseDups]
  exact List.mem_filterMap.2 ⟨p, hp, hname⟩

end

theorem collects_regions : Collects Script.Statement.regions fun p => [p.region] := by
  constructor
  · intro name constructor methods
    have hmethods : methodRegions methods =
        methods.flatMap fun m => [(ofMethod name m).region] := by
      rw [methodRegions_eq_map, List.map_eq_flatMap]
      congr 1
      funext m
      cases m
      rw [Method.region]
      rfl
    cases constructor with
    | none => exact hmethods
    | some body => exact congrArg (Script.region [] body :: ·) hmethods
  · intro name parameters body
    rw [Script.Statement.regions]
    rfl

theorem Regular.regions_arrange {pieces : List Piece} (h : Regular pieces) :
    (regionsOf (arrange pieces)).Perm (pieces.map region) := by
  rw [regionsOf_eq_flatMap, List.map_eq_flatMap]
  exact collects_regions.arrange_perm h.nodup

end Piece

end LiterateFun.Lowering
