import LiterateFun.Proofs.Relabel

/-!
This module contains the scope tree of a program, and the binding of a name that is visible at a
point of it.

The tree has nothing but the references, the `:=` and the scopes of a program, in the order of
evaluation. A point of the tree is given by the layers around it: for every scope around the point
what the scope declares, and what stands before the point in the scope.
-/

namespace LiterateFun

inductive Item
  /-- A reference to a name. -/
  | use (x : Identifier)
  /-- A `:=`, which is complete once its value has been evaluated. -/
  | bind (x : Identifier)
  /-- A scope. What it declares is known in all of it. -/
  | scope (declared : List (String × Identifier)) (items : List Item)
deriving Repr

mutual

def Expr.items : Expr → List Item
  | .string _ => []
  | .number _ => []
  | .identifier x => [.use x]
  | .binary _ left right => left.items ++ right.items
  | .call callee arguments => callee.items ++ Expr.itemsList arguments
  | .assign target value => target.items ++ value.items
  | .declare x value => value.items ++ [.bind x]

def Expr.itemsList : List Expr → List Item
  | [] => []
  | e :: es => e.items ++ Expr.itemsList es

end

def parametersDeclared (parameters : List Identifier) : List (String × Identifier) :=
  parameters.map fun x => (x.name, x)

mutual

def Statement.items : Statement → List Item
  | .expression value => value.items
  | .return value => value.items
  | .conditional condition consequent none =>
    [.scope [] (condition.items ++ [.scope (Block.hoisted consequent) (blockItems consequent)])]
  | .conditional condition consequent (some alternative) =>
    [.scope [] (condition.items ++ [.scope (Block.hoisted consequent) (blockItems consequent)]
      ++ [.scope (Block.hoisted alternative) (blockItems alternative)])]
  | .declaration d => d.items

def Declaration.items : Declaration → List Item
  | .class _ body => [.scope (Block.hoisted body) (blockItems body)]
  | .function _ parameters body =>
    [.scope (parametersDeclared parameters) [.scope (Block.hoisted body) (blockItems body)]]
  | .method owner _ parameters body =>
    [.use owner,
      .scope (parametersDeclared parameters) [.scope (Block.hoisted body) (blockItems body)]]

def blockItems : List Statement → List Item
  | [] => []
  | s :: b => s.items ++ blockItems b

end

def Block.tree (b : Block) : Item :=
  .scope b.hoisted (blockItems b)

/-- A scope around a point: what it declares, and its items before the point. -/
structure Layer where
  declared : List (String × Identifier)
  before : List Item

def Item.bound? (name : String) : Item → Option Identifier
  | .bind x => if x.name = name then some x else none
  | _ => none

/--
The definition of a name in one scope: the latest `:=` before the point that belongs to the scope
itself, else what the scope declares.
-/
def Layer.definition? (l : Layer) (name : String) : Option Identifier :=
  l.before.reverse.findSome? (Item.bound? name) <|> l.declared.lookup name

theorem mem_of_lookup_eq_some {α : Type} {entries : List (String × α)} {name : String} {a : α}
    (h : entries.lookup name = some a) : (name, a) ∈ entries := by
  obtain ⟨before, after, rfl, -⟩ := List.lookup_eq_some_iff.1 h
  simp

inductive Binding
  | definition (x : Identifier)
  | global (id : Nat)
deriving DecidableEq, Repr

def Binding.id : Binding → Option Nat
  | .definition x => x.id
  | .global id => some id

/-- The binding of a name that is visible inside of some layers, of which the innermost is first. -/
def visible? (globals : List (String × Nat)) : List Layer → String → Option Binding
  | [], name => (globals.lookup name).map .global
  | l :: layers, name => (l.definition? name).map .definition <|> visible? globals layers name

inductive Item.Refers (x : Identifier) : Item → List Layer → Prop
  | use : Refers x (.use x) []
  | scope {i : Item} {layers : List Layer} {declared : List (String × Identifier)}
      {before after : List Item} (h : Refers x i layers) :
      Refers x (.scope declared (before ++ i :: after)) (layers ++ [⟨declared, before⟩])

inductive Item.Within (j : Item) : Item → List Layer → Prop
  | self : Within j j []
  | scope {i : Item} {layers : List Layer} {declared : List (String × Identifier)}
      {before after : List Item} (h : Within j i layers) :
      Within j (.scope declared (before ++ i :: after)) (layers ++ [⟨declared, before⟩])

inductive Item.Declares (declared : List (String × Identifier)) : Item → Prop
  | self {items : List Item} : Declares declared (.scope declared items)
  | scope {i : Item} {outer : List (String × Identifier)} {items : List Item} (hi : i ∈ items)
      (h : Declares declared i) : Declares declared (.scope outer items)

mutual

def Item.definitions : Item → List (String × Identifier)
  | .use _ => []
  | .bind x => [(x.name, x)]
  | .scope declared items => declared ++ definitionsOf items

def definitionsOf : List Item → List (String × Identifier)
  | [] => []
  | i :: items => i.definitions ++ definitionsOf items

end

theorem definitionsOf_append (items₁ items₂ : List Item) :
    definitionsOf (items₁ ++ items₂) = definitionsOf items₁ ++ definitionsOf items₂ := by
  induction items₁ with
  | nil => rfl
  | cons i items₁ ih =>
    rw [List.cons_append, definitionsOf, definitionsOf, ih, List.append_assoc]

def Layer.extend (l : Layer) (items : List Item) : Layer :=
  { l with before := l.before ++ items }

@[simp]
theorem Layer.extend_nil (l : Layer) : l.extend [] = l := by
  simp [Layer.extend]

@[simp]
theorem Layer.extend_extend (l : Layer) (items₁ items₂ : List Item) :
    (l.extend items₁).extend items₂ = l.extend (items₁ ++ items₂) := by
  simp [Layer.extend]

mutual

def Item.All (P : Identifier → List Layer → Prop) (layers : List Layer) : Item → Prop
  | .use x => P x layers
  | .bind _ => True
  | .scope declared items => allItems P layers ⟨declared, []⟩ items

def allItems (P : Identifier → List Layer → Prop) (outer : List Layer) (l : Layer) :
    List Item → Prop
  | [] => True
  | i :: items => i.All P (l :: outer) ∧ allItems P outer (l.extend [i]) items

end

theorem allItems_append {P : Identifier → List Layer → Prop} {outer : List Layer} {l : Layer}
    {items₁ items₂ : List Item} :
    allItems P outer l (items₁ ++ items₂) ↔
      allItems P outer l items₁ ∧ allItems P outer (l.extend items₁) items₂ := by
  induction items₁ generalizing l with
  | nil => simp [allItems]
  | cons i items₁ ih =>
    rw [List.cons_append, allItems, allItems, ih, Layer.extend_extend, and_assoc]
    rfl

theorem Item.refers_scope_iff {x : Identifier} {declared : List (String × Identifier)}
    {items : List Item} {layers : List Layer} :
    Item.Refers x (.scope declared items) layers ↔
      ∃ before i after inner, items = before ++ i :: after ∧ i.Refers x inner ∧
        layers = inner ++ [⟨declared, before⟩] := by
  constructor
  · intro h
    cases h with
    | scope h => exact ⟨_, _, _, _, rfl, h, rfl⟩
  · rintro ⟨before, i, after, inner, rfl, h, rfl⟩
    exact .scope h

mutual

theorem Item.all_iff {P : Identifier → List Layer → Prop} {layers : List Layer} (i : Item) :
    i.All P layers ↔ ∀ x inner, i.Refers x inner → P x (inner ++ layers) := by
  match i with
  | .use x =>
    rw [Item.All]
    constructor
    · intro h y inner hy
      cases hy
      exact h
    · intro h
      exact h x [] .use
  | .bind x =>
    rw [Item.All, true_iff]
    intro y inner hy
    cases hy
  | .scope declared items =>
    rw [Item.All, allItems_iff items]
    constructor
    · intro h x inner hx
      obtain ⟨before, i, after, inner, rfl, hi, rfl⟩ := Item.refers_scope_iff.1 hx
      rw [List.append_assoc]
      exact h before i after rfl x inner hi
    · rintro h before i after rfl x inner hx
      have := h x _ (.scope hx)
      rw [List.append_assoc] at this
      exact this

theorem allItems_iff {P : Identifier → List Layer → Prop} {outer : List Layer} {l : Layer}
    (items : List Item) :
    allItems P outer l items ↔
      ∀ before i after, items = before ++ i :: after → ∀ x inner, i.Refers x inner →
        P x (inner ++ l.extend before :: outer) := by
  match items with
  | [] =>
    rw [allItems, true_iff]
    intro before i after h
    cases before <;> cases h
  | i :: items =>
    rw [allItems, Item.all_iff i, allItems_iff items]
    constructor
    · rintro ⟨hi, hitems⟩ before j after h x inner hx
      cases before with
      | nil =>
        cases h
        rw [Layer.extend_nil]
        exact hi x inner hx
      | cons k before =>
        cases h
        have := hitems before j after rfl x inner hx
        rw [Layer.extend_extend] at this
        exact this
    · intro h
      constructor
      · intro x inner hx
        have := h [] i items rfl x inner hx
        rw [Layer.extend_nil] at this
        exact this
      · rintro before j after rfl x inner hx
        rw [Layer.extend_extend]
        exact h (i :: before) j after rfl x inner hx

end

theorem Item.declares_scope_iff {declared outer : List (String × Identifier)} {items : List Item} :
    Item.Declares declared (.scope outer items) ↔
      declared = outer ∨ ∃ i ∈ items, i.Declares declared := by
  constructor
  · intro h
    cases h with
    | self => exact .inl rfl
    | scope hi h => exact .inr ⟨_, hi, h⟩
  · rintro (rfl | ⟨i, hi, h⟩)
    · exact .self
    · exact .scope hi h

def relabelDeclared (f : Identifier → Identifier) (declared : List (String × Identifier)) :
    List (String × Identifier) :=
  declared.map fun p => (p.1, f p.2)

mutual

def Item.relabel (f : Identifier → Identifier) : Item → Item
  | .use x => .use (f x)
  | .bind x => .bind (f x)
  | .scope declared items => .scope (relabelDeclared f declared) (relabelItems f items)

def relabelItems (f : Identifier → Identifier) : List Item → List Item
  | [] => []
  | i :: items => i.relabel f :: relabelItems f items

end

theorem relabelItems_append (f : Identifier → Identifier) (items₁ items₂ : List Item) :
    relabelItems f (items₁ ++ items₂) = relabelItems f items₁ ++ relabelItems f items₂ := by
  induction items₁ with
  | nil => rfl
  | cons i items₁ ih => rw [List.cons_append, relabelItems, relabelItems, ih, List.cons_append]

theorem relabelItems_reverse (f : Identifier → Identifier) (items : List Item) :
    relabelItems f items.reverse = (relabelItems f items).reverse := by
  induction items with
  | nil => rfl
  | cons i items ih =>
    rw [List.reverse_cons, relabelItems_append, ih, relabelItems, relabelItems, relabelItems,
      List.reverse_cons]

def Layer.relabel (f : Identifier → Identifier) (l : Layer) : Layer where
  declared := relabelDeclared f l.declared
  before := relabelItems f l.before

section

variable {f : Identifier → Identifier} (hf : ∀ x, (f x).name = x.name)

include hf

theorem findSome?_bound?_relabel (items : List Item) (name : String) :
    (relabelItems f items).findSome? (Item.bound? name) =
      (items.findSome? (Item.bound? name)).map f := by
  induction items with
  | nil => rfl
  | cons i items ih =>
    rw [relabelItems, List.findSome?_cons, List.findSome?_cons, ih]
    cases i with
    | use x => rfl
    | scope declared items => rfl
    | bind x =>
      rw [Item.relabel, Item.bound?, Item.bound?, hf]
      by_cases h : x.name = name
      · rw [if_pos h, if_pos h]
        rfl
      · rw [if_neg h, if_neg h]

theorem Layer.definition?_relabel (l : Layer) (name : String) :
    (l.relabel f).definition? name = (l.definition? name).map f := by
  have hdeclared : (relabelDeclared f l.declared).lookup name = (l.declared.lookup name).map f := by
    induction l.declared with
    | nil => rfl
    | cons p declared ih =>
      rw [relabelDeclared, List.map_cons, List.lookup_cons, List.lookup_cons]
      split
      · rfl
      · exact ih
  rw [definition?, definition?, Layer.relabel, ← relabelItems_reverse,
    findSome?_bound?_relabel hf, hdeclared]
  cases l.before.reverse.findSome? (Item.bound? name) <;> rfl

theorem isSome_visible?_relabel (globals : List (String × Nat)) (layers : List Layer)
    (name : String) :
    (visible? globals (layers.map (Layer.relabel f)) name).isSome =
      (visible? globals layers name).isSome := by
  induction layers with
  | nil => rfl
  | cons l layers ih =>
    rw [List.map_cons, visible?, visible?, Layer.definition?_relabel hf]
    cases l.definition? name with
    | none => simpa using ih
    | some x => rfl

end

end LiterateFun
