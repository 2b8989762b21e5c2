import LiterateFun.Program.Occurrences
import LiterateFun.Proofs.Scoping.Surroundings

/-!
This module contains the replacement of the identifiers of a program. A program whose bindings are
forgotten shows its shape, which resolution leaves as it is.
-/

namespace LiterateFun

def Identifier.forgetId (x : Identifier) : Identifier :=
  { x with id := none }

@[simp]
theorem Identifier.name_forgetId (x : Identifier) : x.forgetId.name = x.name := rfl

mutual

def Expr.relabel (f : Identifier → Identifier) : Expr → Expr
  | .string value => .string value
  | .number value => .number value
  | .identifier x => .identifier (f x)
  | .binary op left right => .binary op (left.relabel f) (right.relabel f)
  | .call callee arguments => .call (callee.relabel f) (Expr.relabelList f arguments)
  | .assign target value => .assign (target.relabel f) (value.relabel f)
  | .declare x value => .declare (f x) (value.relabel f)

def Expr.relabelList (f : Identifier → Identifier) : List Expr → List Expr
  | [] => []
  | e :: es => e.relabel f :: Expr.relabelList f es

end

mutual

def Statement.relabel (f : Identifier → Identifier) : Statement → Statement
  | .expression value => .expression (value.relabel f)
  | .return value => .return (value.relabel f)
  | .conditional condition consequent none =>
    .conditional (condition.relabel f) (relabelStatements f consequent) none
  | .conditional condition consequent (some alternative) =>
    .conditional (condition.relabel f) (relabelStatements f consequent)
      (some (relabelStatements f alternative))
  | .declaration d => .declaration (d.relabel f)

def Declaration.relabel (f : Identifier → Identifier) : Declaration → Declaration
  | .class name body => .class (f name) (relabelStatements f body)
  | .function name parameters body =>
    .function (f name) (parameters.map f) (relabelStatements f body)
  | .method owner name parameters body =>
    .method (f owner) (f name) (parameters.map f) (relabelStatements f body)

def relabelStatements (f : Identifier → Identifier) : List Statement → List Statement
  | [] => []
  | s :: b => s.relabel f :: relabelStatements f b

end

def Block.forgetIds (b : Block) : Block :=
  relabelStatements Identifier.forgetId b

theorem Block.forgetIds_cons (s : Statement) (b : Block) :
    Block.forgetIds (s :: b) = s.relabel Identifier.forgetId :: b.forgetIds := rfl

mutual

theorem Expr.relabel_eq_self {f : Identifier → Identifier} (e : Expr)
    (h : ∀ x ∈ e.identifiers, f x = x) : e.relabel f = e := by
  cases e with
  | string => rfl
  | number => rfl
  | identifier x => simp_all [Expr.relabel, Expr.identifiers]
  | binary op left right =>
    simp only [Expr.identifiers, List.mem_append] at h
    rw [Expr.relabel, Expr.relabel_eq_self left fun x hx => h x (.inl hx),
      Expr.relabel_eq_self right fun x hx => h x (.inr hx)]
  | call callee arguments =>
    simp only [Expr.identifiers, List.mem_append] at h
    rw [Expr.relabel, Expr.relabel_eq_self callee fun x hx => h x (.inl hx),
      Expr.relabelList_eq_self arguments fun x hx => h x (.inr hx)]
  | assign target value =>
    simp only [Expr.identifiers, List.mem_append] at h
    rw [Expr.relabel, Expr.relabel_eq_self target fun x hx => h x (.inl hx),
      Expr.relabel_eq_self value fun x hx => h x (.inr hx)]
  | declare x value =>
    simp only [Expr.identifiers, List.mem_cons] at h
    rw [Expr.relabel, h x (.inl rfl), Expr.relabel_eq_self value fun x hx => h x (.inr hx)]

theorem Expr.relabelList_eq_self {f : Identifier → Identifier} (es : List Expr)
    (h : ∀ x ∈ Expr.identifiersList es, f x = x) : Expr.relabelList f es = es := by
  cases es with
  | nil => rfl
  | cons e es =>
    simp only [Expr.identifiersList, List.mem_append] at h
    rw [Expr.relabelList, Expr.relabel_eq_self e fun x hx => h x (.inl hx),
      Expr.relabelList_eq_self es fun x hx => h x (.inr hx)]

end

mutual

theorem Statement.relabel_eq_self {f : Identifier → Identifier} (s : Statement)
    (h : ∀ x ∈ s.identifiers, f x = x) : s.relabel f = s := by
  match s with
  | .expression value =>
    rw [Statement.relabel, Expr.relabel_eq_self value h]
  | .return value =>
    rw [Statement.relabel, Expr.relabel_eq_self value h]
  | .conditional condition consequent none =>
    simp only [Statement.identifiers, List.mem_append] at h
    rw [Statement.relabel, Expr.relabel_eq_self condition fun x hx => h x (.inl hx),
      relabelStatements_eq_self consequent fun x hx => h x (.inr hx)]
  | .conditional condition consequent (some alternative) =>
    simp only [Statement.identifiers, List.mem_append] at h
    rw [Statement.relabel, Expr.relabel_eq_self condition fun x hx => h x (.inl (.inl hx)),
      relabelStatements_eq_self consequent fun x hx => h x (.inl (.inr hx)),
      relabelStatements_eq_self alternative fun x hx => h x (.inr hx)]
  | .declaration d =>
    rw [Statement.relabel, Declaration.relabel_eq_self d h]

theorem Declaration.relabel_eq_self {f : Identifier → Identifier} (d : Declaration)
    (h : ∀ x ∈ d.identifiers, f x = x) : d.relabel f = d := by
  match d with
  | .class name body =>
    simp only [Declaration.identifiers, List.mem_cons] at h
    rw [Declaration.relabel, h name (.inl rfl),
      relabelStatements_eq_self body fun x hx => h x (.inr hx)]
  | .function name parameters body =>
    simp only [Declaration.identifiers, List.cons_append, List.mem_cons, List.mem_append] at h
    rw [Declaration.relabel, h name (.inl rfl), map_eq_self fun x hx => h x (.inr (.inl hx)),
      relabelStatements_eq_self body fun x hx => h x (.inr (.inr hx))]
  | .method owner name parameters body =>
    simp only [Declaration.identifiers, List.cons_append, List.mem_cons, List.mem_append] at h
    rw [Declaration.relabel, h owner (.inl rfl), h name (.inr (.inl rfl)),
      map_eq_self fun x hx => h x (.inr (.inr (.inl hx))),
      relabelStatements_eq_self body fun x hx => h x (.inr (.inr (.inr hx)))]

theorem relabelStatements_eq_self {f : Identifier → Identifier} (b : List Statement)
    (h : ∀ x ∈ blockIdentifiers b, f x = x) : relabelStatements f b = b := by
  match b with
  | [] => rfl
  | s :: b =>
    simp only [blockIdentifiers, List.mem_append] at h
    rw [relabelStatements, Statement.relabel_eq_self s fun x hx => h x (.inl hx),
      relabelStatements_eq_self b fun x hx => h x (.inr hx)]

end

mutual

theorem Expr.identifiers_relabel (f : Identifier → Identifier) (e : Expr) :
    (e.relabel f).identifiers = e.identifiers.map f := by
  match e with
  | .string _ => rfl
  | .number _ => rfl
  | .identifier _ => rfl
  | .binary _ left right =>
    rw [Expr.relabel, Expr.identifiers, left.identifiers_relabel, right.identifiers_relabel,
      Expr.identifiers, List.map_append]
  | .call callee arguments =>
    rw [Expr.relabel, Expr.identifiers, callee.identifiers_relabel,
      Expr.identifiersList_relabelList, Expr.identifiers, List.map_append]
  | .assign target value =>
    rw [Expr.relabel, Expr.identifiers, target.identifiers_relabel, value.identifiers_relabel,
      Expr.identifiers, List.map_append]
  | .declare x value =>
    rw [Expr.relabel, Expr.identifiers, value.identifiers_relabel, Expr.identifiers, List.map_cons]

theorem Expr.identifiersList_relabelList (f : Identifier → Identifier) (es : List Expr) :
    Expr.identifiersList (Expr.relabelList f es) = (Expr.identifiersList es).map f := by
  match es with
  | [] => rfl
  | e :: es =>
    rw [Expr.relabelList, Expr.identifiersList, e.identifiers_relabel,
      Expr.identifiersList_relabelList, Expr.identifiersList, List.map_append]

end

mutual

theorem Statement.identifiers_relabel (f : Identifier → Identifier) (s : Statement) :
    (s.relabel f).identifiers = s.identifiers.map f := by
  match s with
  | .expression value => exact value.identifiers_relabel f
  | .return value => exact value.identifiers_relabel f
  | .conditional condition consequent none =>
    rw [Statement.relabel, Statement.identifiers, condition.identifiers_relabel,
      blockIdentifiers_relabel, Statement.identifiers, List.map_append]
  | .conditional condition consequent (some alternative) =>
    rw [Statement.relabel, Statement.identifiers, condition.identifiers_relabel,
      blockIdentifiers_relabel, blockIdentifiers_relabel, Statement.identifiers, List.map_append,
      List.map_append]
  | .declaration d => exact d.identifiers_relabel f

theorem Declaration.identifiers_relabel (f : Identifier → Identifier) (d : Declaration) :
    (d.relabel f).identifiers = d.identifiers.map f := by
  match d with
  | .class name body =>
    rw [Declaration.relabel, Declaration.identifiers, blockIdentifiers_relabel,
      Declaration.identifiers, List.map_cons]
  | .function name parameters body =>
    rw [Declaration.relabel, Declaration.identifiers, blockIdentifiers_relabel,
      Declaration.identifiers, List.map_append, List.map_cons]
  | .method owner name parameters body =>
    rw [Declaration.relabel, Declaration.identifiers, blockIdentifiers_relabel,
      Declaration.identifiers, List.map_append, List.map_cons, List.map_cons]

theorem blockIdentifiers_relabel (f : Identifier → Identifier) (b : List Statement) :
    blockIdentifiers (relabelStatements f b) = (blockIdentifiers b).map f := by
  match b with
  | [] => rfl
  | s :: b =>
    rw [relabelStatements, blockIdentifiers, s.identifiers_relabel, blockIdentifiers_relabel,
      blockIdentifiers, List.map_append]

end

mutual

theorem Expr.relabel_relabel (f g : Identifier → Identifier) (e : Expr) :
    (e.relabel f).relabel g = e.relabel (g ∘ f) := by
  match e with
  | .string _ => rfl
  | .number _ => rfl
  | .identifier _ => rfl
  | .binary _ left right =>
    simp only [Expr.relabel, left.relabel_relabel, right.relabel_relabel]
  | .call callee arguments =>
    simp only [Expr.relabel, callee.relabel_relabel, Expr.relabelList_relabelList]
  | .assign target value =>
    simp only [Expr.relabel, target.relabel_relabel, value.relabel_relabel]
  | .declare x value => simp only [Expr.relabel, value.relabel_relabel, Function.comp]

theorem Expr.relabelList_relabelList (f g : Identifier → Identifier) (es : List Expr) :
    Expr.relabelList g (Expr.relabelList f es) = Expr.relabelList (g ∘ f) es := by
  match es with
  | [] => rfl
  | e :: es => simp only [Expr.relabelList, e.relabel_relabel, Expr.relabelList_relabelList]

end

mutual

theorem Statement.relabel_relabel (f g : Identifier → Identifier) (s : Statement) :
    (s.relabel f).relabel g = s.relabel (g ∘ f) := by
  match s with
  | .expression value => simp only [Statement.relabel, value.relabel_relabel]
  | .return value => simp only [Statement.relabel, value.relabel_relabel]
  | .conditional condition consequent none =>
    simp only [Statement.relabel, condition.relabel_relabel, relabelStatements_relabelStatements]
  | .conditional condition consequent (some alternative) =>
    simp only [Statement.relabel, condition.relabel_relabel, relabelStatements_relabelStatements]
  | .declaration d => simp only [Statement.relabel, d.relabel_relabel]

theorem Declaration.relabel_relabel (f g : Identifier → Identifier) (d : Declaration) :
    (d.relabel f).relabel g = d.relabel (g ∘ f) := by
  match d with
  | .class name body =>
    simp only [Declaration.relabel, relabelStatements_relabelStatements, Function.comp]
  | .function name parameters body =>
    simp only [Declaration.relabel, relabelStatements_relabelStatements, List.map_map,
      Function.comp]
  | .method owner name parameters body =>
    simp only [Declaration.relabel, relabelStatements_relabelStatements, List.map_map,
      Function.comp]

theorem relabelStatements_relabelStatements (f g : Identifier → Identifier) (b : List Statement) :
    relabelStatements g (relabelStatements f b) = relabelStatements (g ∘ f) b := by
  match b with
  | [] => rfl
  | s :: b =>
    simp only [relabelStatements, s.relabel_relabel, relabelStatements_relabelStatements]

end

theorem Block.forgetIds_eq_self {b : Block} (h : ∀ x ∈ blockIdentifiers b, x.id = none) :
    b.forgetIds = b := by
  apply relabelStatements_eq_self
  intro x hx
  rw [Identifier.forgetId, ← h x hx]

namespace Resolution

theorem inScope_apply (around : Surroundings) (f : Surroundings → Step α) (s : State) :
    inScope around f s =
      ((f (around.enter s.scope) { s with scope := [] }).1,
        { (f (around.enter s.scope) { s with scope := [] }).2 with scope := s.scope }) := rfl

theorem define_apply (name : String) (x : Identifier) (s : State) :
    define name x s =
      if s.scope.isBound name then (x, (fail (.duplicateDefinition name x.span) s).2)
      else introduce name x s := by
  unfold define
  rw [bind_apply]
  split
  next h =>
    have : s.scope.isBound name = true := h
    rw [if_pos this]
    rfl
  next h =>
    have : ¬s.scope.isBound name = true := h
    rw [if_neg this]
    rfl

@[simp]
theorem forgetId_introduce (name : String) (x : Identifier) (s : State) :
    (introduce name x s).1.forgetId = x.forgetId := by
  unfold introduce
  split
  · rfl
  · rfl

@[simp]
theorem forgetId_define (name : String) (x : Identifier) (s : State) :
    (define name x s).1.forgetId = x.forgetId := by
  rw [define_apply]
  split
  · rfl
  · apply forgetId_introduce

@[simp]
theorem forgetId_refer (around : Surroundings) (x : Identifier) (s : State) :
    (refer around x s).1.forgetId = x.forgetId := by
  unfold refer
  split
  · rfl
  · split
    · rfl
    · rfl

mutual

theorem relabel_resolve (around : Surroundings) (e : Expr) (s : State) :
    (e.resolve around s).1.relabel Identifier.forgetId = e.relabel Identifier.forgetId := by
  match e with
  | .string _ => rfl
  | .number _ => rfl
  | .identifier x =>
    simp only [Expr.resolve, bind_apply, pure_apply, Expr.relabel]
    rw [forgetId_refer]
  | .binary op left right =>
    simp only [Expr.resolve, bind_apply, pure_apply, Expr.relabel]
    rw [relabel_resolve, relabel_resolve]
  | .call callee arguments =>
    simp only [Expr.resolve, bind_apply, pure_apply, Expr.relabel]
    rw [relabel_resolve, relabelList_resolveList]
  | .assign (.identifier x) value =>
    simp only [Expr.resolve, bind_apply, pure_apply, Expr.relabel]
    rw [relabel_resolve, forgetId_refer]
  | .assign (.string _) _ => rfl
  | .assign (.number _) _ => rfl
  | .assign (.binary ..) _ => rfl
  | .assign (.call ..) _ => rfl
  | .assign (.assign ..) _ => rfl
  | .assign (.declare ..) _ => rfl
  | .declare x value =>
    simp only [Expr.resolve, bind_apply, pure_apply, Expr.relabel]
    rw [relabel_resolve, forgetId_introduce]

theorem relabelList_resolveList (around : Surroundings) (es : List Expr) (s : State) :
    Expr.relabelList Identifier.forgetId (Expr.resolveList around es s).1 =
      Expr.relabelList Identifier.forgetId es := by
  match es with
  | [] => rfl
  | e :: es =>
    simp only [Expr.resolveList, bind_apply, pure_apply, Expr.relabelList]
    rw [relabel_resolve, relabelList_resolveList]

end

end Resolution

def Block.hoisted : Block → List (String × Identifier)
  | [] => []
  | .declaration d :: b => (d.qualifiedName, d.name) :: Block.hoisted b
  | .expression _ :: b => Block.hoisted b
  | .return _ :: b => Block.hoisted b
  | .conditional .. :: b => Block.hoisted b

theorem Declaration.name_relabel (f : Identifier → Identifier) (d : Declaration) :
    (d.relabel f).name = f d.name := by
  cases d <;> rfl

theorem Declaration.withName_relabel (f : Identifier → Identifier) (d : Declaration)
    (name : Identifier) : (d.withName name).relabel f = (d.relabel f).withName (f name) := by
  cases d <;> rfl

theorem Declaration.name_withName (d : Declaration) (name : Identifier) :
    (d.withName name).name = name := by
  cases d <;> rfl

theorem Declaration.withName_name (d : Declaration) : d.withName d.name = d := by
  cases d <;> rfl

theorem Statement.relabel_eq_declaration {f : Identifier → Identifier} {st : Statement}
    {d : Declaration} (h : st.relabel f = .declaration d) :
    ∃ c, st = .declaration c ∧ c.relabel f = d := by
  match st with
  | .declaration c => exact ⟨c, rfl, Statement.declaration.inj h⟩
  | .expression _ => cases h
  | .return _ => cases h
  | .conditional _ _ none => cases h
  | .conditional _ _ (some _) => cases h

theorem Block.hoisted_cons {st : Statement} (h : ∀ d, st ≠ .declaration d) (b : Block) :
    Block.hoisted (st :: b) = b.hoisted := by
  cases st with
  | declaration d => exact absurd rfl (h d)
  | _ => rfl

theorem Block.withNames_cons {st : Statement} (h : ∀ d, st ≠ .declaration d) (b : Block)
    (names : List Identifier) :
    Block.withNames (st :: b) names = st :: b.withNames names := by
  cases st with
  | declaration d => exact absurd rfl (h d)
  | _ => rfl

theorem Block.withNames_nil (b : Block) : b.withNames [] = b := by
  induction b with
  | nil => rfl
  | cons st b ih =>
    have hcons : Block.withNames (st :: b) [] = st :: Block.withNames b [] := by
      cases st <;> rfl
    rw [hcons, ih]

namespace Resolution

theorem map_forgetId_hoist (b : Block) (s : State) :
    (b.hoist s).1.map Identifier.forgetId = b.hoisted.map fun p => p.2.forgetId := by
  induction b generalizing s with
  | nil => rfl
  | cons st b ih =>
    match st with
    | .declaration d =>
      simp only [Block.hoist, bind_apply, pure_apply, Block.hoisted, List.map_cons]
      rw [forgetId_define, ih]
    | .expression value => exact ih _
    | .return value => exact ih _
    | .conditional .. => exact ih _

def hoistedAs (b : Block) (names : List Identifier) : List (String × Identifier) :=
  (b.hoisted.map Prod.fst).zip names

theorem Identifier.name_eq_of_forgetId_eq {x y : Identifier} (h : x.forgetId = y.forgetId) :
    x.name = y.name := by
  rw [← Identifier.name_forgetId x, h, Identifier.name_forgetId]

theorem qualifiedName_withName {c d : Declaration} {name : Identifier}
    (h : c.relabel Identifier.forgetId = d.relabel Identifier.forgetId)
    (hname : name.forgetId = d.name.forgetId) :
    (c.withName name).qualifiedName = d.qualifiedName := by
  have hname' := Identifier.name_eq_of_forgetId_eq hname
  cases d with
  | «class» =>
    cases c with
    | «class» => exact hname'
    | function => cases h
    | method => cases h
  | function =>
    cases c with
    | «class» => cases h
    | function => exact hname'
    | method => cases h
  | method =>
    cases c with
    | «class» => cases h
    | function => cases h
    | method =>
      simp only [Declaration.relabel, Declaration.method.injEq] at h
      have howner := Identifier.name_eq_of_forgetId_eq h.1
      simp only [Declaration.withName, Declaration.qualifiedName, howner, hname', Declaration.name]

theorem withNames_of_same {b c : Block} {names : List Identifier} (h : c.forgetIds = b.forgetIds)
    (hnames : names.map Identifier.forgetId = b.hoisted.map fun p => p.2.forgetId) :
    (c.withNames names).forgetIds = b.forgetIds ∧
      (c.withNames names).hoisted = hoistedAs b names := by
  induction c generalizing b names with
  | nil =>
    cases b with
    | nil => exact ⟨rfl, rfl⟩
    | cons => cases h
  | cons st' c ih =>
    cases b with
    | nil => cases h
    | cons st b =>
      rw [Block.forgetIds_cons, Block.forgetIds_cons] at h
      obtain ⟨hst, hc⟩ := List.cons.inj h
      by_cases hd : ∃ d, st = .declaration d
      · obtain ⟨d, rfl⟩ := hd
        -- Blocks of one shape have their declarations at the same places.
        obtain ⟨d', rfl, hd'⟩ := Statement.relabel_eq_declaration hst
        cases names with
        | nil => cases hnames
        | cons name names =>
          simp only [Block.hoisted, List.map_cons, List.cons.injEq] at hnames
          obtain ⟨hshape, hhoisted⟩ := ih hc hnames.2
          rw [Block.withNames]
          constructor
          · rw [Block.forgetIds_cons, Block.forgetIds_cons, hshape, Statement.relabel,
              Statement.relabel, Declaration.withName_relabel, hnames.1, hd',
              ← Declaration.name_relabel Identifier.forgetId d, Declaration.withName_name]
          · rw [Block.hoisted, hhoisted, qualifiedName_withName hd' hnames.1,
              Declaration.name_withName]
            rfl
      · have hne : ∀ d, st ≠ .declaration d := fun d h => hd ⟨d, h⟩
        have hne' : ∀ d, st' ≠ .declaration d := by
          rintro d rfl
          obtain ⟨c, hc, -⟩ := Statement.relabel_eq_declaration hst.symm
          exact hne c hc
        rw [Block.hoisted_cons hne] at hnames
        obtain ⟨hshape, hhoisted⟩ := ih hc hnames
        rw [Block.withNames_cons hne']
        constructor
        · rw [Block.forgetIds_cons, Block.forgetIds_cons, hshape, hst]
        · rw [Block.hoisted_cons hne', hhoisted, hoistedAs, hoistedAs, Block.hoisted_cons hne]

theorem map_forgetId_resolveParameters (xs : List Identifier) (s : State) :
    (resolveParameters xs s).1.map Identifier.forgetId = xs.map Identifier.forgetId := by
  induction xs generalizing s with
  | nil => rfl
  | cons x xs ih =>
    simp only [resolveParameters, bind_apply, pure_apply, List.map_cons]
    rw [forgetId_define, ih]

theorem relabel_inBlock {around : Surroundings} {b : Block} {f : Surroundings → Step Block}
    (h : ∀ around s, relabelStatements Identifier.forgetId (f around s).1 =
      relabelStatements Identifier.forgetId b) (s : State) :
    relabelStatements Identifier.forgetId (inBlock around b f s).1 =
      relabelStatements Identifier.forgetId b := by
  unfold inBlock
  rw [inScope_apply]
  exact (withNames_of_same (h _ _) (map_forgetId_hoist b _)).1

mutual

theorem relabel_resolve_statement (around : Surroundings) (st : Statement) (s : State) :
    (st.resolve around s).1.relabel Identifier.forgetId = st.relabel Identifier.forgetId := by
  match st with
  | .expression value =>
    simp only [Statement.resolve, bind_apply, pure_apply, Statement.relabel]
    rw [relabel_resolve]
  | .return value =>
    simp only [Statement.resolve, bind_apply, pure_apply, Statement.relabel]
    rw [relabel_resolve]
  | .declaration d =>
    simp only [Statement.resolve, bind_apply, pure_apply, Statement.relabel]
    rw [relabel_resolve_declaration]
  | .conditional condition consequent none =>
    have hconsequent := fun around => relabelStatements_resolve around consequent
    simp only [Statement.resolve, inScope_apply, bind_apply, pure_apply, Statement.relabel]
    rw [relabel_resolve, relabel_inBlock hconsequent]
  | .conditional condition consequent (some alternative) =>
    have hconsequent := fun around => relabelStatements_resolve around consequent
    have halternative := fun around => relabelStatements_resolve around alternative
    simp only [Statement.resolve, inScope_apply, bind_apply, pure_apply, Statement.relabel]
    rw [relabel_resolve, relabel_inBlock hconsequent, relabel_inBlock halternative]

theorem relabel_resolve_declaration (around : Surroundings) (d : Declaration) (s : State) :
    (d.resolve around s).1.relabel Identifier.forgetId = d.relabel Identifier.forgetId := by
  match d with
  | .class name body =>
    have hbody := fun around => relabelStatements_resolve around body
    simp only [Declaration.resolve, bind_apply, pure_apply, Declaration.relabel]
    rw [relabel_inBlock hbody]
  | .function name parameters body =>
    have hbody := fun around => relabelStatements_resolve around body
    simp only [Declaration.resolve, inScope_apply, bind_apply, pure_apply, Declaration.relabel]
    rw [map_forgetId_resolveParameters, relabel_inBlock hbody]
  | .method owner name parameters body =>
    have hbody := fun around => relabelStatements_resolve around body
    simp only [Declaration.resolve, inScope_apply, bind_apply, pure_apply, Declaration.relabel]
    rw [forgetId_refer, map_forgetId_resolveParameters, relabel_inBlock hbody]

theorem relabelStatements_resolve (around : Surroundings) (b : List Statement) (s : State) :
    relabelStatements Identifier.forgetId (resolveStatements around b s).1 =
      relabelStatements Identifier.forgetId b := by
  match b with
  | [] => rfl
  | st :: b =>
    simp only [resolveStatements, bind_apply, pure_apply, relabelStatements]
    rw [relabel_resolve_statement, relabelStatements_resolve]

end

theorem forgetIds_resolve (around : Surroundings) (b : Block) (s : State) :
    (b.resolve around s).1.forgetIds = b.forgetIds :=
  relabel_inBlock (fun around s => relabelStatements_resolve around b s) s

end Resolution

end LiterateFun
