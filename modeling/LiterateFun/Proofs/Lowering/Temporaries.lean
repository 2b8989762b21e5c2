import LiterateFun.Proofs.Emission.Mentions
import LiterateFun.Proofs.Subexpressions
import Mathlib.Data.List.Nodup

/-!
This module contains the temporaries of lowered expressions. Every operation and every call gets one
line with a temporary, in the order of evaluation, and every temporary is used once.
-/

namespace LiterateFun

open Lowering Script

/--
Some items, which come one after the other, define numbered results. A result is used after its
definition only, and once, where `result` is used at the end.
-/
structure UsedOnce {α τ : Type} [DecidableEq τ] (Defines : α → Nat → Prop) (uses : α → List τ)
    (name : Nat → τ) (items : List α) (result : List τ) : Prop where
  earlier : ∀ before a after, items = before ++ a :: after →
    ∀ n, name n ∈ uses a → ∃ a' ∈ before, Defines a' n
  once : ∀ before a after n, items = before ++ a :: after → Defines a n →
    (after.flatMap uses ++ result).count (name n) = 1

def Expr.isOperation : Expr → Bool
  | .binary .. => true
  | .call .. => true
  | _ => false

mutual

def Expr.postorder : Expr → List Expr
  | .string value => [.string value]
  | .number value => [.number value]
  | .identifier x => [.identifier x]
  | .binary op left right => left.postorder ++ right.postorder ++ [.binary op left right]
  | .call callee arguments =>
    callee.postorder ++ Expr.postorderList arguments ++ [.call callee arguments]
  | .assign target value => target.postorder ++ value.postorder ++ [.assign target value]
  | .declare x value => value.postorder ++ [.declare x value]

def Expr.postorderList : List Expr → List Expr
  | [] => []
  | e :: es => e.postorder ++ Expr.postorderList es

end

mutual

theorem Expr.postorder_perm (e : Expr) : e.postorder.Perm e.subexpressions := by
  match e with
  | .string _ => exact .refl _
  | .number _ => exact .refl _
  | .identifier _ => exact .refl _
  | .binary op left right =>
    rw [Expr.postorder, Expr.subexpressions]
    exact (List.perm_append_singleton _ _).trans
      ((left.postorder_perm.append right.postorder_perm).cons _)
  | .call callee arguments =>
    rw [Expr.postorder, Expr.subexpressions]
    exact (List.perm_append_singleton _ _).trans
      ((callee.postorder_perm.append (Expr.postorderList_perm arguments)).cons _)
  | .assign target value =>
    rw [Expr.postorder, Expr.subexpressions]
    exact (List.perm_append_singleton _ _).trans
      ((target.postorder_perm.append value.postorder_perm).cons _)
  | .declare x value =>
    rw [Expr.postorder, Expr.subexpressions]
    exact (List.perm_append_singleton _ _).trans (value.postorder_perm.cons _)

theorem Expr.postorderList_perm (es : List Expr) :
    (Expr.postorderList es).Perm (Expr.subexpressionsList es) := by
  match es with
  | [] => exact .refl _
  | e :: es =>
    rw [Expr.postorderList, Expr.subexpressionsList]
    exact e.postorder_perm.append (Expr.postorderList_perm es)

end

def Expr.operations (e : Expr) : List Expr :=
  e.postorder.filter Expr.isOperation

def Expr.operationCount (e : Expr) : Nat :=
  e.subexpressions.countP Expr.isOperation

theorem Expr.length_operations (e : Expr) : e.operations.length = e.operationCount := by
  rw [Expr.operations, ← List.countP_eq_length_filter, Expr.operationCount]
  exact e.postorder_perm.countP_eq _

def operationsIn (es : List Expr) : Nat :=
  (Expr.subexpressionsList es).countP Expr.isOperation

theorem operationsIn_append (es es' : List Expr) :
    operationsIn (es ++ es') = operationsIn es + operationsIn es' := by
  induction es with
  | nil => exact (Nat.zero_add _).symm
  | cons e es ih =>
    have hcons : ∀ es, operationsIn (e :: es) = e.operationCount + operationsIn es :=
      fun _ => List.countP_append
    rw [List.cons_append, hcons, hcons, ih, Nat.add_assoc]

theorem operationsIn_singleton (e : Expr) : operationsIn [e] = e.operationCount := by
  rw [operationsIn, Expr.subexpressionsList, Expr.subexpressionsList, List.append_nil,
    Expr.operationCount]

def Expr.nameFrom (ids : List Nat) (first : Nat) : Expr → String
  | .string value => stringLiteral value
  | .number value => value.text
  | .identifier x => x.written ids
  | .binary _ left right => temporaryText (first + left.operationCount + right.operationCount)
  | .call callee arguments =>
    temporaryText (first + callee.operationCount + operationsIn arguments)
  | .assign (.identifier x) _ => x.written ids
  | .assign _ value => value.nameFrom ids first
  | .declare x _ => x.written ids

def namesFrom (ids : List Nat) (first : Nat) : List Expr → List String
  | [] => []
  | e :: es => e.nameFrom ids first :: namesFrom ids (first + e.operationCount) es

/--
A line carries out an operation or a call. Its operands are evaluated before it, from left to right,
so that their temporaries end right in front of its own one.
-/
inductive Performs (ids : List Nat) : Expr → Line → Prop
  | binary (first : Nat) (op : Operator) (left right : Expr) :
      Performs ids (.binary op left right)
        (.operation (first + left.operationCount + right.operationCount)
          (left.nameFrom ids first) op (right.nameFrom ids (first + left.operationCount)))
  | call (first : Nat) (callee : Expr) (arguments : List Expr) :
      Performs ids (.call callee arguments)
        (.call (first + callee.operationCount + operationsIn arguments)
          (callee.nameFrom ids first) (namesFrom ids (first + callee.operationCount) arguments))

structure EvaluatesOnce (ids : List Nat) (first : Nat) (e : Expr) (lines : List Line)
    (name : String) : Prop where
  indices : lines.filterMap Line.defined? = List.range' first e.operationCount
  operations : List.Forall₂ (Performs ids) e.operations
    (lines.filter fun line => line.defined?.isSome)
  result : name = e.nameFrom ids first
  uses : UsedOnce (fun line index => line.defined? = some index) Line.names temporaryText lines
    [name]

theorem namesFrom_append (ids : List Nat) (first : Nat) (es es' : List Expr) :
    namesFrom ids first (es ++ es') =
      namesFrom ids first es ++ namesFrom ids (first + operationsIn es) es' := by
  induction es generalizing first with
  | nil => rfl
  | cons e es ih =>
    have hcount := operationsIn_append [e] es
    rw [operationsIn_singleton] at hcount
    rw [List.cons_append, namesFrom, namesFrom, ih, Nat.add_assoc, ← hcount]
    rfl

theorem Expr.postorderList_singleton (e : Expr) : Expr.postorderList [e] = e.postorder := by
  rw [Expr.postorderList, Expr.postorderList, List.append_nil]

theorem Expr.postorderList_append (es es' : List Expr) :
    Expr.postorderList (es ++ es') = Expr.postorderList es ++ Expr.postorderList es' := by
  induction es with
  | nil => rfl
  | cons e es ih =>
    rw [List.cons_append, Expr.postorderList, Expr.postorderList, ih, List.append_assoc]

theorem operationsIn_congr {e e' : Expr} (h : e'.operations = e.operations) :
    operationsIn [e'] = operationsIn [e] := by
  rw [operationsIn_singleton, operationsIn_singleton, ← e.length_operations,
    ← e'.length_operations, h]

theorem operationsIn_operation {e : Expr} {es : List Expr}
    (hpostorder : e.postorder = Expr.postorderList es ++ [e]) (he : e.isOperation) :
    operationsIn [e] = operationsIn es + 1 := by
  rw [operationsIn_singleton, Expr.operationCount, ← e.postorder_perm.countP_eq, hpostorder,
    List.countP_append, (Expr.postorderList_perm es).countP_eq]
  simp [operationsIn, he]

namespace UsedOnce

variable {α β τ υ : Type} [DecidableEq τ] [DecidableEq υ] {Defines : α → Nat → Prop}
  {uses : α → List τ} {name : Nat → τ} {items : List α} {result : List τ}

theorem map {Defines' : β → Nat → Prop} {uses' : β → List υ} {name' : Nat → υ} {result' : List υ}
    {f : α → β} (h : UsedOnce Defines uses name items result)
    (hdefines : ∀ a ∈ items, ∀ n, Defines' (f a) n ↔ Defines a n)
    (huses : ∀ a ∈ items, ∀ n, (uses' (f a)).count (name' n) = (uses a).count (name n))
    (hresult : ∀ n, result'.count (name' n) = result.count (name n)) :
    UsedOnce Defines' uses' name' (items.map f) result' := by
  constructor
  · intro before b after heq n hn
    obtain ⟨before, rest, hitems, rfl, hrest⟩ := List.map_eq_append_iff.1 heq
    obtain ⟨a, after, rfl, rfl, -⟩ := List.map_eq_cons_iff.1 hrest
    have ha : a ∈ items := by simp [hitems]
    have hmem : name n ∈ uses a := by
      rw [← List.count_pos_iff, ← huses a ha]
      exact List.count_pos_iff.2 hn
    obtain ⟨a', ha', hdefined⟩ := h.earlier before a after hitems n hmem
    refine ⟨f a', List.mem_map_of_mem ha', (hdefines a' ?_ n).2 hdefined⟩
    simp [hitems, ha']
  · intro before b after n heq hb
    obtain ⟨before, rest, hitems, rfl, hrest⟩ := List.map_eq_append_iff.1 heq
    obtain ⟨a, after, rfl, rfl, rfl⟩ := List.map_eq_cons_iff.1 hrest
    have ha : a ∈ items := by simp [hitems]
    have hafter : ((after.map f).flatMap uses').count (name' n) =
        (after.flatMap uses).count (name n) := by
      have hsub : ∀ a' ∈ after, a' ∈ items := by simp +contextual [hitems]
      clear hitems hrest heq
      induction after with
      | nil => rfl
      | cons a' after ih =>
        rw [List.forall_mem_cons] at hsub
        rw [List.map_cons, List.flatMap_cons, List.flatMap_cons, List.count_append,
          List.count_append, huses a' hsub.1, ih hsub.2]
    rw [List.count_append, hafter, hresult, ← List.count_append]
    exact h.once before a after n hitems ((hdefines a ha n).1 hb)

theorem of_count (hnodup : ∀ before a after n, items = before ++ a :: after → Defines a n →
      ∀ a' ∈ before, ¬Defines a' n)
    (hearlier : ∀ before a after, items = before ++ a :: after →
      ∀ n, name n ∈ uses a → ∃ a' ∈ before, Defines a' n)
    (hcount : ∀ a ∈ items, ∀ n, Defines a n → (items.flatMap uses ++ result).count (name n) = 1) :
    UsedOnce Defines uses name items result := by
  -- A result is used after its definition, so that all uses are later ones.
  refine ⟨hearlier, ?_⟩
  intro before a after n hitems ha
  -- The items up to the definition use only results in front of it.
  have hunused : name n ∉ (before ++ [a]).flatMap uses := by
    intro hmem
    obtain ⟨d, hd, hused⟩ := List.mem_flatMap.1 hmem
    obtain ⟨front, back, hd⟩ := List.append_of_mem hd
    have hfront : front <+: before := by
      have hlength := congrArg List.length hd
      have hle : front.length ≤ before.length := by
        simp only [List.length_append, List.length_cons, List.length_nil] at hlength
        omega
      exact List.prefix_of_prefix_length_le (hd ▸ List.prefix_append front _)
        (List.prefix_append before _) hle
    have hitems' : items = front ++ d :: (back ++ after) := by
      rw [hitems, List.append_cons, hd, List.append_assoc, List.cons_append]
    obtain ⟨a', ha', hdefined⟩ := hearlier front d _ hitems' n hused
    exact hnodup before a after n hitems ha a' (hfront.subset ha') hdefined
  have hone := hcount a (by simp [hitems]) n ha
  rwa [hitems, List.append_cons, List.flatMap_append, List.append_assoc, List.count_append,
    List.count_eq_zero_of_not_mem hunused, Nat.zero_add] at hone

end UsedOnce

def UsesEarlier (lines : List Line) : Prop :=
  ∀ before line after, lines = before ++ line :: after →
    ∀ index, temporaryText index ∈ line.names → ∃ line' ∈ before, line'.defined? = some index

theorem UsesEarlier.append {lines lines' : List Line} (h : UsesEarlier lines)
    (h' : ∀ before line after, lines' = before ++ line :: after →
      ∀ index, temporaryText index ∈ line.names →
        ∃ line' ∈ lines ++ before, line'.defined? = some index) :
    UsesEarlier (lines ++ lines') := by
  intro before line after heq
  rw [List.append_eq_append_iff] at heq
  rcases heq with ⟨rest, rfl, hlines'⟩ | ⟨rest, hlines, hrest⟩
  · exact h' rest line after hlines'
  · cases rest with
    | nil =>
      rw [List.append_nil] at hlines
      rw [← hlines, ← List.append_nil lines]
      exact h' [] line after hrest.symm
    | cons line' rest =>
      cases hrest
      exact h before line rest hlines

theorem UsesEarlier.snoc {lines : List Line} (h : UsesEarlier lines) {line : Line}
    (hline : ∀ index, temporaryText index ∈ line.names →
      ∃ line' ∈ lines, line'.defined? = some index) :
    UsesEarlier (lines ++ [line]) := by
  apply h.append
  intro before line' after heq
  cases before with
  | nil =>
    cases heq
    rwa [List.append_nil]
  | cons line'' before =>
    rw [List.cons_append, List.cons.injEq] at heq
    exact absurd heq.2.symm (List.append_ne_nil_of_right_ne_nil _ (List.cons_ne_nil _ _))

/--
What the lines of expressions that are evaluated one after the other have in common. The uses of the
temporaries are counted all together: where they stand follows from the order of the definitions.
-/
structure Flattens (ids : List Nat) (first : Nat) (es : List Expr) (lines : List Line)
    (names : List String) : Prop where
  indices : lines.filterMap Line.defined? = List.range' first (operationsIn es)
  operations : List.Forall₂ (Performs ids) ((Expr.postorderList es).filter Expr.isOperation)
    (lines.filter fun line => line.defined?.isSome)
  results : names = namesFrom ids first es
  earlier : UsesEarlier lines
  uses : ∀ index, (lines.flatMap Line.names ++ names).count (temporaryText index) =
    (List.range' first (operationsIn es)).count index
  readable : (∀ x ∈ es.flatMap Expr.identifiers, IsPlain x.name) →
    ∀ name ∈ lines.flatMap Line.names ++ names, IsName name

namespace Flattens

variable {ids : List Nat} {first : Nat} {es es' : List Expr} {lines lines' : List Line}
  {names names' : List String}

theorem nil (ids : List Nat) (first : Nat) : Flattens ids first [] [] [] where
  indices := rfl
  operations := .nil
  results := rfl
  earlier := by
    intro before line after heq
    cases before <;> cases heq
  uses _ := rfl
  readable _ := List.forall_mem_nil _

theorem atom {e : Expr} (hoperations : e.operations = [])
    (hname : ∀ index, e.nameFrom ids first ≠ temporaryText index)
    (hreadable : (∀ x ∈ e.identifiers, IsPlain x.name) → IsName (e.nameFrom ids first)) :
    Flattens ids first [e] [] [e.nameFrom ids first] := by
  have hcount : operationsIn [e] = 0 := by
    rw [operationsIn_singleton, ← e.length_operations, hoperations]
    rfl
  constructor
  · rw [hcount]
    rfl
  · rw [Expr.postorderList_singleton]
    rw [Expr.operations] at hoperations
    rw [hoperations]
    exact .nil
  · rfl
  · exact (nil ids first).earlier
  · intro index
    rw [hcount]
    exact List.count_eq_zero_of_not_mem (by simpa using (hname index).symm)
  · intro hplain
    rw [List.flatMap_singleton] at hplain
    exact List.forall_mem_singleton.2 (hreadable hplain)

theorem result {e : Expr} {name : String} (h : Flattens ids first [e] lines [name]) :
    name = e.nameFrom ids first :=
  (List.cons.inj h.results).1

theorem exists_defined (h : Flattens ids first es lines names) {index : Nat}
    (hmem : temporaryText index ∈ names) : ∃ line ∈ lines, line.defined? = some index := by
  have hcount := h.uses index
  have hpos : 0 < (List.range' first (operationsIn es)).count index := by
    rw [← hcount]
    exact List.count_pos_iff.2 (List.mem_append_right _ hmem)
  rw [List.count_pos_iff, ← h.indices] at hpos
  exact List.mem_filterMap.1 hpos

theorem append (h : Flattens ids first es lines names)
    (h' : Flattens ids (first + operationsIn es) es' lines' names') :
    Flattens ids first (es ++ es') (lines ++ lines') (names ++ names') where
  indices := by
    rw [List.filterMap_append, h.indices, h'.indices, operationsIn_append, List.range'_append_1]
  operations := by
    rw [Expr.postorderList_append, List.filter_append, List.filter_append]
    exact List.rel_append h.operations h'.operations
  results := by rw [namesFrom_append, h.results, h'.results]
  earlier := by
    apply h.earlier.append
    intro before line after heq index hindex
    obtain ⟨line', hmem, hdefined⟩ := h'.earlier before line after heq index hindex
    exact ⟨line', List.mem_append_right _ hmem, hdefined⟩
  uses index := by
    have hcount := h.uses index
    have hcount' := h'.uses index
    rw [operationsIn_append, ← List.range'_append_1]
    simp only [List.flatMap_append, List.count_append] at hcount hcount' ⊢
    omega
  readable hplain := by
    rw [List.flatMap_append, List.forall_mem_append] at hplain
    have hnames := h.readable hplain.1
    have hnames' := h'.readable hplain.2
    rw [List.forall_mem_append] at hnames hnames'
    rw [List.flatMap_append, List.forall_mem_append, List.forall_mem_append,
      List.forall_mem_append]
    exact ⟨⟨hnames.1, hnames'.1⟩, hnames.2, hnames'.2⟩

theorem operation (h : Flattens ids first es lines names) {e : Expr} {line : Line} {index : Nat}
    (hindex : index = first + operationsIn es) (hperforms : Performs ids e line)
    (hdefined : line.defined? = some index) (hnames : line.names = names)
    (hpostorder : e.postorder = Expr.postorderList es ++ [e]) (he : e.isOperation)
    (hidentifiers : e.identifiers = es.flatMap Expr.identifiers)
    (hname : e.nameFrom ids first = temporaryText index) :
    Flattens ids first [e] (lines ++ [line]) [temporaryText index] := by
  have hoperations : (Expr.postorderList [e]).filter Expr.isOperation =
      (Expr.postorderList es).filter Expr.isOperation ++ [e] := by
    rw [Expr.postorderList_singleton, hpostorder, List.filter_append]
    simp [he]
  have hrange : List.range' first (operationsIn [e]) =
      List.range' first (operationsIn es) ++ [index] := by
    rw [operationsIn_operation hpostorder he, ← List.range'_append_1, hindex]
    rfl
  constructor
  · rw [List.filterMap_append, h.indices, hrange]
    simp [hdefined]
  · rw [hoperations, List.filter_append]
    refine List.rel_append h.operations ?_
    simpa [hdefined] using hperforms
  · rw [namesFrom, namesFrom, hname]
  · apply h.earlier.snoc
    rw [hnames]
    exact fun _ => h.exists_defined
  · intro n
    have htemporary : [temporaryText index].count (temporaryText n) = [index].count n := by
      rw [List.count_singleton, List.count_singleton]
      simp [temporaryText_inj]
    rw [List.flatMap_append, List.flatMap_singleton, hnames, hrange, List.count_append, h.uses,
      List.count_append, htemporary]
  · intro hplain
    rw [List.flatMap_singleton, hidentifiers] at hplain
    rw [List.flatMap_append, List.flatMap_singleton, hnames]
    exact List.forall_mem_append.2
      ⟨h.readable hplain, List.forall_mem_singleton.2 (isName_temporaryText index)⟩

theorem store {e e' : Expr} {name : String} (h : Flattens ids first [e] lines [name])
    {x : Identifier} {more : List Line} (hmore : more = [.assign (x.written ids) name] ∨
      more = [.declare (x.written ids), .assign (x.written ids) name])
    (hoperations : e'.operations = e.operations) (hname : e'.nameFrom ids first = x.written ids)
    (hidentifiers : e'.identifiers = x :: e.identifiers) :
    Flattens ids first [e'] (lines ++ more) [x.written ids] := by
  have hpostorder : (Expr.postorderList [e']).filter Expr.isOperation =
      (Expr.postorderList [e]).filter Expr.isOperation := by
    rw [Expr.postorderList_singleton, Expr.postorderList_singleton]
    exact hoperations
  have hdefined : more.filterMap Line.defined? = [] ∧
      more.filter (fun line => line.defined?.isSome) = [] := by
    rcases hmore with rfl | rfl <;> exact ⟨rfl, rfl⟩
  have hcount : ∀ index, (more.flatMap Line.names).count (temporaryText index) =
      [name].count (temporaryText index) := by
    intro index
    have hx := List.count_cons_of_ne (x.written_ne_temporaryText ids index) (l := [name])
    rcases hmore with rfl | rfl
    · exact hx
    · exact (List.count_cons_of_ne (x.written_ne_temporaryText ids index)).trans hx
  constructor
  · rw [List.filterMap_append, h.indices, hdefined.1, List.append_nil,
      operationsIn_congr hoperations]
  · rw [hpostorder, List.filter_append, hdefined.2, List.append_nil]
    exact h.operations
  · rw [namesFrom, namesFrom, hname]
  · have hassign : ∀ index, temporaryText index ∈ (Line.assign (x.written ids) name).names →
        ∃ line ∈ lines, line.defined? = some index := by
      intro index hmem
      rcases List.mem_cons.1 hmem with heq | hmem
      · exact absurd heq.symm (x.written_ne_temporaryText ids index)
      · exact h.exists_defined hmem
    rcases hmore with rfl | rfl
    · exact h.earlier.snoc hassign
    · rw [List.append_cons]
      refine UsesEarlier.snoc (h.earlier.snoc fun index hmem => ?_) fun index hmem => ?_
      · exact absurd (List.mem_singleton.1 hmem).symm (x.written_ne_temporaryText ids index)
      · obtain ⟨line, hline, hsome⟩ := hassign index hmem
        exact ⟨line, List.mem_append_left _ hline, hsome⟩
  · intro index
    have hlast : [x.written ids].count (temporaryText index) = 0 :=
      List.count_eq_zero_of_not_mem
        (by simpa using (x.written_ne_temporaryText ids index).symm)
    rw [operationsIn_congr hoperations, ← h.uses, List.flatMap_append, List.count_append,
      List.count_append, List.count_append, hcount, hlast, Nat.add_zero]
  · intro hplain
    rw [List.flatMap_singleton, hidentifiers, List.forall_mem_cons] at hplain
    have hx : IsName (x.written ids) := Identifier.isName_written ids hplain.1
    have hnames := h.readable (by rw [List.flatMap_singleton]; exact hplain.2)
    rw [List.forall_mem_append, List.forall_mem_singleton] at hnames
    have hmores : ∀ name' ∈ more.flatMap Line.names, IsName name' := by
      rcases hmore with rfl | rfl <;> simp [Line.names, hx, hnames.2]
    rw [List.flatMap_append, List.forall_mem_append, List.forall_mem_append,
      List.forall_mem_singleton]
    exact ⟨⟨hnames.1, hmores⟩, hx⟩

theorem evaluatesOnce {e : Expr} {name : String} (h : Flattens ids first [e] lines [name]) :
    EvaluatesOnce ids first e lines name := by
  have hindices := h.indices
  have hoperations := h.operations
  rw [operationsIn_singleton] at hindices
  rw [Expr.postorderList_singleton] at hoperations
  refine ⟨hindices, hoperations, h.result, .of_count ?_ h.earlier ?_⟩
  · intro before line after index hlines hdefined line' hline' hdefined'
    have hnodup : (lines.filterMap Line.defined?).Nodup := by
      rw [hindices]
      exact List.nodup_range'
    rw [hlines, List.filterMap_append, List.filterMap_cons_some hdefined, List.nodup_append]
      at hnodup
    have hmem : index ∈ before.filterMap Line.defined? :=
      List.mem_filterMap.2 ⟨line', hline', hdefined'⟩
    exact hnodup.2.2 index hmem index List.mem_cons_self rfl
  · intro line hline index hdefined
    have hmem : index ∈ List.range' first (operationsIn [e]) := by
      rw [← h.indices]
      exact List.mem_filterMap.2 ⟨line, hline, hdefined⟩
    rw [h.uses]
    exact List.count_eq_one_of_mem List.nodup_range' hmem

theorem usedOnce {e : Expr} {name : String} (h : Flattens ids first [e] lines [name])
    (hplain : ∀ x ∈ e.identifiers, IsPlain x.name) :
    UsedOnce Defines mentions (fun index => .word ("temp" ++ Text.decimal index))
      (lines.map Line.text) (lexemes name.toList) := by
  have hnames := h.readable (by rwa [List.flatMap_singleton])
  rw [List.forall_mem_append, List.forall_mem_singleton, List.forall_mem_flatMap] at hnames
  apply h.evaluatesOnce.uses.map
  · exact fun line hline index => (line.reads (hnames.1 line hline) index).1
  · exact fun line hline index => (line.reads (hnames.1 line hline) index).2
  · intro index
    obtain ⟨l, hlexeme, -, htemporary⟩ := hnames.2
    have hread := hlexeme [] (by simp [EndsWord])
    rw [List.append_nil, lexemes_nil] at hread
    rw [hread]
    exact count_name (htemporary index) rfl

end Flattens

theorem nextTemporary_declareOnce (v : Script.Variable) (st : Lowering.State) :
    (declareOnce v st).2.nextTemporary = st.nextTemporary := by
  unfold declareOnce
  split <;> rfl

theorem linesOf_binary (index : Nat) (op : Operator) (left right : Value) :
    linesOf [.binary index op left right] =
      [(Line.operation index left.text op right.text).text] := by
  rw [Line.text_operation]
  rfl

theorem linesOf_call (index : Nat) (callee : Value) (arguments : List Value) :
    linesOf [.call index callee arguments] =
      [(Line.call index callee.text (arguments.map Value.text)).text] := by
  rw [Line.text_call]
  rfl

theorem linesOf_declareOnce (x : Identifier) (ids : List Nat) (st : Lowering.State)
    (value : Value) :
    ∃ more, linesOf ((declareOnce (x.variable ids) st).1 ++ [.assign (x.variable ids) value]) =
        more.map Line.text ∧
      (more = [.assign (x.written ids) value.text] ∨
        more = [.declare (x.written ids), .assign (x.written ids) value.text]) := by
  unfold declareOnce
  split
  · exact ⟨_, rfl, .inl rfl⟩
  · exact ⟨_, rfl, .inr rfl⟩

/--
The expressions `es` are lowered from `st` to `st'`: the lines of their code flatten them, and the
results have the texts `names`.
-/
structure LowersTo (ids : List Nat) (st st' : Lowering.State) (es : List Expr)
    (code : List Script.Statement) (names : List String) : Prop where
  lines : ∃ lines, linesOf code = lines.map Line.text ∧
    Flattens ids st.nextTemporary es lines names
  next : st'.nextTemporary = st.nextTemporary + operationsIn es

namespace LowersTo

variable {ids : List Nat} {st st' st'' : Lowering.State} {es es' : List Expr}
  {code code' : List Script.Statement} {names names' : List String}

theorem results (h : LowersTo ids st st' es code names) :
    names = namesFrom ids st.nextTemporary es := by
  obtain ⟨lines, -, hflattens⟩ := h.lines
  exact hflattens.results

theorem result {e : Expr} {name : String} (h : LowersTo ids st st' [e] code [name]) :
    name = e.nameFrom ids st.nextTemporary :=
  (List.cons.inj h.results).1

theorem append (h : LowersTo ids st st' es code names)
    (h' : LowersTo ids st' st'' es' code' names') :
    LowersTo ids st st'' (es ++ es') (code ++ code') (names ++ names') := by
  obtain ⟨lines, hlines, hflattens⟩ := h.lines
  obtain ⟨lines', hlines', hflattens'⟩ := h'.lines
  rw [h.next] at hflattens'
  refine ⟨⟨lines ++ lines', ?_, hflattens.append hflattens'⟩, ?_⟩
  · rw [linesOf_append, hlines, hlines', List.map_append]
  · rw [h'.next, h.next, operationsIn_append, Nat.add_assoc]

theorem operation (h : LowersTo ids st st' es code names) {e : Expr} {line : Line}
    {statement : Script.Statement} (hline : linesOf [statement] = [line.text])
    (hperforms : Performs ids e line) (hdefined : line.defined? = some st'.nextTemporary)
    (hnames : line.names = names) (hpostorder : e.postorder = Expr.postorderList es ++ [e])
    (he : e.isOperation) (hidentifiers : e.identifiers = es.flatMap Expr.identifiers)
    (hname : e.nameFrom ids st.nextTemporary = temporaryText st'.nextTemporary) :
    LowersTo ids st { st' with nextTemporary := st'.nextTemporary + 1 } [e] (code ++ [statement])
      [temporaryText st'.nextTemporary] := by
  obtain ⟨lines, hlines, hflattens⟩ := h.lines
  refine ⟨⟨lines ++ [line], ?_, hflattens.operation h.next hperforms hdefined hnames hpostorder he
    hidentifiers hname⟩, ?_⟩
  · rw [linesOf_append, hlines, hline, List.map_append, List.map_singleton]
  · rw [operationsIn_operation hpostorder he, ← Nat.add_assoc, ← h.next]

theorem store {e e' : Expr} {name : String} (h : LowersTo ids st st' [e] code [name])
    {x : Identifier} {more : List Line} (hcode : linesOf code' = more.map Line.text)
    (hmore : more = [.assign (x.written ids) name] ∨
      more = [.declare (x.written ids), .assign (x.written ids) name])
    (hnext : st''.nextTemporary = st'.nextTemporary)
    (hoperations : e'.operations = e.operations)
    (hname : e'.nameFrom ids st.nextTemporary = x.written ids)
    (hidentifiers : e'.identifiers = x :: e.identifiers) :
    LowersTo ids st st'' [e'] (code ++ code') [x.written ids] := by
  obtain ⟨lines, hlines, hflattens⟩ := h.lines
  refine ⟨⟨lines ++ more, ?_, hflattens.store hmore hoperations hname hidentifiers⟩, ?_⟩
  · rw [linesOf_append, hlines, hcode, List.map_append]
  · rw [hnext, h.next, operationsIn_congr hoperations]

end LowersTo

mutual

theorem Expr.lower_lowersTo (ids : List Nat) (e : Expr) (h : Assignable e.subexpressions)
    (st : Lowering.State) :
    LowersTo ids st (e.lower ids st).2 [e] (e.lower ids st).1.code
      [(e.lower ids st).1.value.text] := by
  match e with
  | .string value =>
    have hname : ∀ index, stringLiteral value ≠ temporaryText index :=
      ne_temporaryText (by rw [head?_stringLiteral]; decide)
    exact ⟨⟨[], rfl, .atom rfl hname fun _ => isName_stringLiteral value⟩, rfl⟩
  | .number value =>
    have hname : ∀ index, value.text ≠ temporaryText index :=
      ne_temporaryText (head?_number value (by decide) (by decide))
    exact ⟨⟨[], rfl, .atom rfl hname fun _ => isName_number value⟩, rfl⟩
  | .identifier x =>
    exact ⟨⟨[], rfl, .atom rfl (x.written_ne_temporaryText ids) fun hplain =>
      Identifier.isName_written ids (hplain x List.mem_cons_self)⟩, rfl⟩
  | .binary op left right =>
    rw [Expr.subexpressions, assignable_cons (by simp), assignable_append] at h
    have hleft := left.lower_lowersTo ids h.1 st
    have hright := right.lower_lowersTo ids h.2 (left.lower ids st).2
    have hpostorder : (Expr.binary op left right).postorder =
        Expr.postorderList ([left] ++ [right]) ++ [.binary op left right] := by
      rw [Expr.postorderList_append, Expr.postorderList_singleton, Expr.postorderList_singleton,
        Expr.postorder]
    have hindex := hright.next
    rw [hleft.next, operationsIn_singleton, operationsIn_singleton] at hindex
    have hperforms : Performs ids _ _ := .binary st.nextTemporary op left right
    rw [← hindex, ← hleft.result, ← operationsIn_singleton, ← hleft.next, ← hright.result]
      at hperforms
    exact (hleft.append hright).operation (linesOf_binary ..) hperforms rfl rfl hpostorder rfl
      (by simp [Expr.identifiers]) (congrArg _ hindex.symm)
  | .call callee arguments =>
    rw [Expr.subexpressions, assignable_cons (by simp), assignable_append] at h
    have hcallee := callee.lower_lowersTo ids h.1 st
    have harguments := Expr.lowerList_lowersTo ids arguments h.2 (callee.lower ids st).2
    have hpostorder : (Expr.call callee arguments).postorder =
        Expr.postorderList ([callee] ++ arguments) ++ [.call callee arguments] := by
      rw [Expr.postorderList_append, Expr.postorderList_singleton, Expr.postorder]
    have hindex := harguments.next
    rw [hcallee.next, operationsIn_singleton] at hindex
    have hperforms : Performs ids _ _ := .call st.nextTemporary callee arguments
    rw [← hindex, ← hcallee.result, ← operationsIn_singleton, ← hcallee.next,
      ← harguments.results] at hperforms
    exact (hcallee.append harguments).operation (linesOf_call ..) hperforms rfl rfl hpostorder rfl
      (by simp [Expr.identifiers, Expr.identifiersList_eq_flatMap])
      (congrArg _ hindex.symm)
  | .assign target value =>
    obtain ⟨x, rfl⟩ := h target value List.mem_cons_self
    rw [Expr.subexpressions, assignable_assign, assignable_append] at h
    have hoperations : (Expr.assign (.identifier x) value).operations = value.operations := by
      simp [Expr.operations, Expr.postorder, Expr.isOperation]
    exact (value.lower_lowersTo ids h.2 st).store rfl (.inl rfl) rfl hoperations rfl rfl
  | .declare x value =>
    rw [Expr.subexpressions, assignable_cons (by simp)] at h
    have hoperations : (Expr.declare x value).operations = value.operations := by
      simp [Expr.operations, Expr.postorder, Expr.isOperation]
    obtain ⟨more, htext, hmore⟩ := linesOf_declareOnce x ids (value.lower ids st).2
      (value.lower ids st).1.value
    have hstore := (value.lower_lowersTo ids h st).store htext hmore
      (nextTemporary_declareOnce (x.variable ids) _) hoperations rfl rfl
    rwa [← List.append_assoc] at hstore

theorem Expr.lowerList_lowersTo (ids : List Nat) (es : List Expr)
    (h : Assignable (Expr.subexpressionsList es)) (st : Lowering.State) :
    LowersTo ids st (Expr.lowerList ids es st).2 es (Expr.lowerList ids es st).1.code
      ((Expr.lowerList ids es st).1.value.map Value.text) := by
  match es with
  | [] => exact ⟨⟨[], rfl, .nil ids _⟩, rfl⟩
  | e :: es =>
    rw [Expr.subexpressionsList, assignable_append] at h
    exact (e.lower_lowersTo ids h.1 st).append
      (Expr.lowerList_lowersTo ids es h.2 (e.lower ids st).2)

end

/--
An expression is evaluated once, from left to right: the lines of its operations and calls define
temporaries from the next one on, in the order of the program, and each of them is used exactly
once. If every name is read as one word, this can be told from the text alone.
-/
theorem Expr.lower_evaluatesOnce (ids : List Nat) {e : Expr} (h : Assignable e.subexpressions)
    (st : Lowering.State) :
    (∃ lines, linesOf (e.lower ids st).1.code = lines.map Line.text ∧
      EvaluatesOnce ids st.nextTemporary e lines (e.lower ids st).1.value.text) ∧
      ((∀ x ∈ e.identifiers, IsPlain x.name) →
        UsedOnce Defines mentions (fun index => .word ("temp" ++ Text.decimal index))
          (linesOf (e.lower ids st).1.code) (lexemes (e.lower ids st).1.value.text.toList)) ∧
      (e.lower ids st).2.nextTemporary = st.nextTemporary + e.operationCount := by
  obtain ⟨⟨lines, hlines, hflattens⟩, hnext⟩ := e.lower_lowersTo ids h st
  rw [operationsIn_singleton] at hnext
  refine ⟨⟨lines, hlines, hflattens.evaluatesOnce⟩, fun hplain => ?_, hnext⟩
  rw [hlines]
  exact hflattens.usedOnce hplain

/-- The expression `f(x + x, x := g(x))`, where `x` has the id 5. -/
def nestedCalls : Expr :=
  let name (name : String) (id : Nat) : Identifier := ⟨name, some id, default⟩
  let x := .identifier (name "x" 5)
  .call (.identifier (name "f" 6))
    [.binary .add x x, .declare (name "x" 5) (.call (.identifier (name "g" 7)) [x])]

theorem nestedCalls_evaluatesOnce :
    (∃ lines, lines.map Line.text =
        ["const temp3 = FUN_x_5 + FUN_x_5;", "const temp4 = FUN_g(FUN_x_5);", "let FUN_x_5;",
          "FUN_x_5 = temp4;", "const temp5 = FUN_f(temp3, FUN_x_5);"] ∧
      EvaluatesOnce [5] 3 nestedCalls lines "temp5") ∧
      UsedOnce Defines mentions (fun index => .word ("temp" ++ Text.decimal index))
        ["const temp3 = FUN_x_5 + FUN_x_5;", "const temp4 = FUN_g(FUN_x_5);", "let FUN_x_5;",
          "FUN_x_5 = temp4;", "const temp5 = FUN_f(temp3, FUN_x_5);"]
        (lexemes "temp5".toList) := by
  have hassignable : Assignable nestedCalls.subexpressions := by
    intro target value hmem
    simp [nestedCalls, Expr.subexpressions, Expr.subexpressionsList] at hmem
  have hplain : ∀ x ∈ nestedCalls.identifiers, IsPlain x.name := by
    decide
  have hlines : linesOf (nestedCalls.lower [5] { nextTemporary := 3 }).1.code =
      ["const temp3 = FUN_x_5 + FUN_x_5;", "const temp4 = FUN_g(FUN_x_5);", "let FUN_x_5;",
        "FUN_x_5 = temp4;", "const temp5 = FUN_f(temp3, FUN_x_5);"] := by
    decide +kernel
  have hname : (nestedCalls.lower [5] { nextTemporary := 3 }).1.value.text = "temp5" := by
    decide +kernel
  obtain ⟨⟨lines, htext, hevaluates⟩, hused, -⟩ :=
    nestedCalls.lower_evaluatesOnce [5] hassignable { nextTemporary := 3 }
  rw [hlines, hname] at hused
  rw [hlines] at htext
  rw [hname] at hevaluates
  exact ⟨⟨lines, htext.symm, hevaluates⟩, hused hplain⟩

end LiterateFun
