import LiterateFun.Proofs.Scoping.Accepted
import LiterateFun.Proofs.Scoping.Renaming

/-!
This module contains the violations of the rules of scoping, and the failures of name resolution.
Resolution fails with the first violation in its order: a scope is entered with its declarations, of
which none may repeat a name, and then its statements follow from left to right.
-/

namespace LiterateFun

/-- The names that the `:=` among some items introduce, not those in scopes among them. -/
def boundNames (items : List Item) : List String :=
  items.filterMap fun
    | .bind x => some x.name
    | _ => none

/--
A scope around a point: what it declares, its items before the point, and the names that its own
`:=` introduce, be it before the point or after it.
-/
structure Frame extends Layer where
  introduced : List String

namespace Frame

def enter (declared : List (String × Identifier)) (introduced : List String) : Frame where
  declared := declared
  before := []
  introduced := introduced

def extend (f : Frame) (items : List Item) : Frame :=
  { f with before := f.before ++ items }

end Frame

def advance : List Frame → List Item → List Frame
  | [], _ => []
  | f :: frames, items => f.extend items :: frames

def repetitions (known : List String) : List (String × Identifier) → List ResolveError
  | [] => []
  | (name, x) :: declared =>
    (if name ∈ known then [.duplicateDefinition name x.span] else []) ++
      repetitions (known ++ [name]) declared

/--
The violations in a scope: of its declarations those that repeat a name, then what `inner` tells of
the rest, which comes after them.
-/
def scopeViolations (frames : List Frame) (declared : List (String × Identifier))
    (introduced : List String) (inner : List Frame → List ResolveError) : List ResolveError :=
  repetitions [] declared ++ inner (.enter declared introduced :: frames)

def Block.violationsWith (frames : List Frame) (b : Block)
    (inner : List Frame → List ResolveError) : List ResolveError :=
  scopeViolations frames b.hoisted (boundNames (blockItems b)) inner

section

variable (globals : List (String × Nat))

/-- What is wrong with a reference inside of some frames, of which the innermost is first. -/
def referenceViolations (frames : List Frame) (x : Identifier) : List ResolveError :=
  if (visible? globals (frames.map Frame.toLayer) x.name).isSome then
    []
  else if ∃ f ∈ frames, x.name ∈ f.introduced then
    [.usedBeforeDeclaration x.name x.span]
  else
    [.undefinedIdentifier x.name x.span]

mutual

/-- The violations in an expression from left to right. A target comes before its value. -/
def Expr.violations (frames : List Frame) : Expr → List ResolveError
  | .string _ => []
  | .number _ => []
  | .identifier x => referenceViolations globals frames x
  | .binary _ left right =>
    left.violations frames ++ right.violations (advance frames left.items)
  | .call callee arguments =>
    callee.violations frames ++ Expr.violationsList (advance frames callee.items) arguments
  | .assign (.identifier x) value =>
    referenceViolations globals frames x ++ value.violations (advance frames [.use x])
  | .assign target value =>
    .invalidAssignmentTarget ::
      (target.violations frames ++ value.violations (advance frames target.items))
  | .declare _ value => value.violations frames

def Expr.violationsList (frames : List Frame) : List Expr → List ResolveError
  | [] => []
  | e :: es => e.violations frames ++ Expr.violationsList (advance frames e.items) es

end

mutual

def Statement.violations (frames : List Frame) : Statement → List ResolveError
  | .expression value => value.violations globals frames
  | .return value => value.violations globals frames
  | .declaration d => d.violations frames
  | .conditional condition consequent none =>
    scopeViolations frames [] (boundNames condition.items) fun frames =>
      condition.violations globals frames ++
        Block.violationsWith (advance frames condition.items) consequent
          (statementViolations · consequent)
  | .conditional condition consequent (some alternative) =>
    scopeViolations frames [] (boundNames condition.items) fun frames =>
      condition.violations globals frames ++
        Block.violationsWith (advance frames condition.items) consequent
          (statementViolations · consequent) ++
        Block.violationsWith (advance frames (condition.items ++ [Block.tree consequent]))
          alternative (statementViolations · alternative)

def Declaration.violations (frames : List Frame) : Declaration → List ResolveError
  | .class _ body => Block.violationsWith frames body (statementViolations · body)
  | .function _ parameters body =>
    scopeViolations frames (parametersDeclared parameters) [] fun frames =>
      Block.violationsWith frames body (statementViolations · body)
  | .method owner _ parameters body =>
    referenceViolations globals frames owner ++
      scopeViolations (advance frames [.use owner]) (parametersDeclared parameters) [] fun frames =>
        Block.violationsWith frames body (statementViolations · body)

def statementViolations (frames : List Frame) : List Statement → List ResolveError
  | [] => []
  | s :: b => s.violations frames ++ statementViolations (advance frames s.items) b

end

def Block.violations (b : Block) : List ResolveError :=
  b.violationsWith [] (statementViolations globals · b)

end

theorem boundNames_append (items₁ items₂ : List Item) :
    boundNames (items₁ ++ items₂) = boundNames items₁ ++ boundNames items₂ := by
  rw [boundNames, boundNames, boundNames, List.filterMap_append]

section

variable {globals : List (String × Nat)} {frames : List Frame} {name : String}

theorem isSome_visible?_cons (l : Layer) (layers : List Layer) :
    (visible? globals (l :: layers) name).isSome =
      ((l.definition? name).isSome || (visible? globals layers name).isSome) := by
  rw [visible?]
  cases l.definition? name <;> simp

theorem isSome_definition?_extend (l : Layer) (items : List Item) :
    ((l.extend items).definition? name).isSome ↔
      name ∈ boundNames items ∨ (l.definition? name).isSome := by
  induction items generalizing l with
  | nil => simp [boundNames]
  | cons i items ih =>
    have hstep := Layer.definition?_extend_singleton l i name
    have hextend : l.extend (i :: items) = (l.extend [i]).extend items := by simp
    rw [hextend, ih, hstep, Option.isSome_or, ← List.singleton_append, boundNames_append,
      List.mem_append]
    cases i with
    | bind x =>
      by_cases h : x.name = name
      · simp [Item.bound?, boundNames, h]
      · simp [Item.bound?, boundNames, h, Ne.symm h]
    | use x => simp [Item.bound?, boundNames]
    | scope declared inner => simp [Item.bound?, boundNames]

theorem isSome_visible?_advance (f : Frame) (items : List Item) :
    (visible? globals ((advance (f :: frames) items).map Frame.toLayer) name).isSome ↔
      name ∈ boundNames items ∨
        (visible? globals ((f :: frames).map Frame.toLayer) name).isSome := by
  have hlayer : (f.extend items).toLayer = f.toLayer.extend items := rfl
  rw [advance, List.map_cons, List.map_cons, isSome_visible?_cons, isSome_visible?_cons, hlayer,
    Bool.or_eq_true, Bool.or_eq_true, isSome_definition?_extend, or_assoc]

theorem exists_introduced_advance (items : List Item) :
    (∃ f ∈ advance frames items, name ∈ f.introduced) ↔ ∃ f ∈ frames, name ∈ f.introduced := by
  cases frames with
  | nil => rfl
  | cons f frames => simp [advance, Frame.extend]

end

namespace Surroundings

variable (around : Surroundings) (scope : Scope)

theorem find?_bind (name other : String) (id : Nat) :
    around.find? (scope.bind name id) other =
      if other = name then some id else around.find? scope other := by
  rw [find?_eq_or, find?_eq_or around scope, Scope.id?_bind]
  split <;> rfl

theorem isReserved_bind {name other : String} (h : other ≠ name) (id : Nat) :
    around.isReserved (scope.bind name id) other = around.isReserved scope other := by
  simp only [isReserved, List.any_cons, Scope.bind, Scope.find?_cons, if_neg h]

end Surroundings

namespace Resolution

structure Matches (s : State) (around : Surroundings) (frames : List Frame) : Prop where
  running : s.failure = none
  visible : ∀ name, (around.find? s.scope name).isSome ↔
    (visible? around.globals (frames.map Frame.toLayer) name).isSome
  reserved : ∀ name, around.find? s.scope name = none →
    (around.isReserved s.scope name ↔ ∃ f ∈ frames, name ∈ f.introduced)

section

variable {s t : State} {around : Surroundings} {frames : List Frame}

theorem Matches.of_scope_eq (h : Matches s around frames) (hscope : t.scope = s.scope)
    (hfailure : t.failure = none) : Matches t around frames := by
  refine ⟨hfailure, ?_, ?_⟩
  · rw [hscope]
    exact h.visible
  · rw [hscope]
    exact h.reserved

theorem Matches.advance (h : Matches s around frames) {items : List Item}
    (hitems : boundNames items = []) : Matches s around (advance frames items) := by
  refine ⟨h.running, ?_, ?_⟩
  · intro name
    rw [h.visible]
    cases frames with
    | nil => rfl
    | cons f frames =>
      rw [isSome_visible?_advance, hitems]
      simp
  · intro name hnone
    rw [h.reserved name hnone, exists_introduced_advance]

theorem failure_refer (h : Matches s around frames) (x : Identifier) :
    (refer around x s).2.failure = (referenceViolations around.globals frames x).head? := by
  have hvisible := h.visible x.name
  unfold refer referenceViolations
  rw [h.running, if_neg (by simp)]
  cases hfind : around.find? s.scope x.name with
  | some id =>
    rw [hfind] at hvisible
    rw [if_pos (hvisible.1 rfl)]
    rfl
  | none =>
    have hinvisible :
        ¬ (visible? around.globals (frames.map Frame.toLayer) x.name).isSome := by
      rw [← hvisible, hfind]
      simp
    rw [if_neg hinvisible]
    simp only [h.reserved x.name hfind]
    split <;> rfl

theorem matches_introduce {f : Frame} (h : Matches s around (f :: frames)) (x : Identifier) :
    Matches (introduce x.name x s).2 around (LiterateFun.advance (f :: frames) [.bind x]) := by
  unfold introduce
  rw [h.running, if_neg (by simp)]
  refine ⟨rfl, ?_, ?_⟩
  · intro name
    rw [isSome_visible?_advance, Surroundings.find?_bind, ← h.visible]
    split <;> simp_all [boundNames]
  · intro name hnone
    rw [Surroundings.find?_bind] at hnone
    split at hnone
    · cases hnone
    next hname =>
      rw [Surroundings.isReserved_bind _ _ hname, h.reserved name hnone, exists_introduced_advance]

end

/--
A step that fails with the first of some errors. They depend on the situation that the step starts
in. Without an error, the step leads to the next situation.
-/
structure FailsFirst {ι : Type} (inside : State → ι → Prop) (errors : ι → List ResolveError)
    (next : ι → ι) (g : Step α) : Prop where
  stops : ∀ s, s.failure.isSome → (g s).2 = s
  failure : ∀ s i, inside s i → (g s).2.failure = (errors i).head?
  goesOn : ∀ s i, inside s i → (g s).2.failure = none → inside (g s).2 (next i)

theorem FailsFirst.append {ι : Type} {inside : State → ι → Prop}
    {errors errors₁ errors₂ : ι → List ResolveError} {next next₁ next₂ : ι → ι} {g : Step α}
    {k : Step β} {m : Step γ} (hg : FailsFirst inside errors₁ next₁ g)
    (hk : FailsFirst inside errors₂ next₂ k) (hstate : ∀ s, (m s).2 = (k (g s).2).2)
    (herrors : ∀ i, errors i = errors₁ i ++ errors₂ (next₁ i))
    (hnext : ∀ i, next i = next₂ (next₁ i)) : FailsFirst inside errors next m := by
  constructor
  · intro s hs
    have hgs := hg.stops s hs
    rw [hstate, hgs, hk.stops s hs]
  · intro s i hs
    have hfailure := hg.failure s i hs
    rw [hstate, herrors, List.head?_append]
    cases hfirst : (g s).2.failure with
    | some e =>
      rw [hfirst] at hfailure
      rw [hk.stops _ (by rw [hfirst]; rfl), hfirst, ← hfailure]
      rfl
    | none =>
      rw [hfirst] at hfailure
      rw [hk.failure _ _ (hg.goesOn s i hs hfirst), ← hfailure]
      rfl
  · intro s i hs hsuccess
    rw [hstate] at hsuccess
    have hfirst : (g s).2.failure = none := by
      by_contra hfail
      rw [hk.stops _ (Option.isSome_iff_ne_none.2 hfail)] at hsuccess
      exact hfail hsuccess
    rw [hstate, hnext]
    exact hk.goesOn _ _ (hg.goesOn s i hs hfirst) hsuccess

/-- A step of the second pass, which goes through items inside of one or more frames. -/
def Reports (around : Surroundings) (items : List Item)
    (violations : List (String × Nat) → List Frame → List ResolveError) (g : Step α) : Prop :=
  FailsFirst (fun s (i : Frame × List Frame) => Matches s around (i.1 :: i.2))
    (fun i => violations around.globals (i.1 :: i.2)) (fun i => (i.1.extend items, i.2)) g

section

variable {around : Surroundings} {items items₁ items₂ : List Item}
  {violations violations₁ violations₂ : List (String × Nat) → List Frame → List ResolveError}

theorem Reports.append {g : Step α} {k : Step β} {m : Step γ}
    (hg : Reports around items₁ violations₁ g) (hk : Reports around items₂ violations₂ k)
    (hstate : ∀ s, (m s).2 = (k (g s).2).2)
    (hviolations : ∀ globals frames, violations globals frames =
      violations₁ globals frames ++ violations₂ globals (advance frames items₁)) :
    Reports around (items₁ ++ items₂) violations m := by
  apply FailsFirst.append hg hk hstate
  · intro i
    exact hviolations around.globals (i.1 :: i.2)
  · intro i
    simp [Frame.extend]

theorem Reports.pair {g : Step α} {k : Step β} (hg : Reports around items₁ violations₁ g)
    (hk : Reports around items₂ violations₂ k) :
    Reports around (items₁ ++ items₂)
      (fun globals frames =>
        violations₁ globals frames ++ violations₂ globals (advance frames items₁))
      (do
        let a ← g
        let b ← k
        return (a, b)) := by
  apply hg.append hk
  · intro s
    rfl
  · intro globals frames
    rfl

theorem Reports.congr {g : Step α} {k : Step β} (h : Reports around items violations g)
    (hstate : ∀ s, (k s).2 = (g s).2) : Reports around items violations k := by
  constructor
  · intro s hs
    rw [hstate, h.stops s hs]
  · intro s i hs
    rw [hstate, h.failure s i hs]
  · intro s i hs
    rw [hstate]
    exact h.goesOn s i hs

theorem reports_pure (a : α) : Reports around [] (fun _ _ => []) (pure a) := by
  constructor
  · intro s hs
    rfl
  · intro s i hs
    exact hs.running
  · intro s i hs hsuccess
    exact hs.advance rfl

theorem reports_refer (x : Identifier) :
    Reports around [.use x] (referenceViolations · · x) (refer around x) := by
  constructor
  · exact (resolves_refer around x).stops
  · intro s i hs
    exact failure_refer hs x
  · intro s i hs hsuccess
    exact (hs.advance rfl).of_scope_eq (scope_refer around x s) hsuccess

theorem reports_introduce (x : Identifier) :
    Reports around [.bind x] (fun _ _ => []) (introduce x.name x) := by
  constructor
  · exact (resolves_introduce around x).stops
  · intro s i hs
    exact (matches_introduce hs x).running
  · intro s i hs hsuccess
    exact matches_introduce hs x

theorem reports_fail (e : ResolveError) (items : List Item)
    (violations : List (String × Nat) → List Frame → List ResolveError) {g : Step α}
    (hstate : ∀ s, (g s).2 = (fail e s).2) :
    Reports around items (fun globals frames => e :: violations globals frames) g := by
  constructor
  · intro s hs
    rw [hstate]
    exact if_pos hs
  · intro s i hs
    rw [hstate, failure_fail hs.running]
    rfl
  · intro s i hs hsuccess
    rw [hstate, failure_fail hs.running] at hsuccess
    cases hsuccess

mutual

theorem reports_expr (around : Surroundings) (e : Expr) :
    Reports around e.items (e.violations · ·) (e.resolve around) := by
  match e with
  | .string value => exact reports_pure _
  | .number value => exact reports_pure _
  | .identifier x => exact (reports_refer x).congr fun s => rfl
  | .binary op left right =>
    apply (reports_expr around left).append (reports_expr around right)
    · intro s
      rfl
    · intro globals frames
      rfl
  | .call callee arguments =>
    apply (reports_expr around callee).append (reports_exprs around arguments)
    · intro s
      rfl
    · intro globals frames
      rfl
  | .assign (.identifier x) value =>
    apply (reports_refer x).append (reports_expr around value)
    · intro s
      rfl
    · intro globals frames
      rfl
  | .assign (.string _) _ => exact reports_fail _ _ _ fun _ => rfl
  | .assign (.number _) _ => exact reports_fail _ _ _ fun _ => rfl
  | .assign (.binary ..) _ => exact reports_fail _ _ _ fun _ => rfl
  | .assign (.call ..) _ => exact reports_fail _ _ _ fun _ => rfl
  | .assign (.assign ..) _ => exact reports_fail _ _ _ fun _ => rfl
  | .assign (.declare ..) _ => exact reports_fail _ _ _ fun _ => rfl
  | .declare x value =>
    apply (reports_expr around value).append (reports_introduce x)
    · intro s
      rfl
    · intro globals frames
      rw [Expr.violations, List.append_nil]

theorem reports_exprs (around : Surroundings) (es : List Expr) :
    Reports around (Expr.itemsList es) (Expr.violationsList · · es)
      (Expr.resolveList around es) := by
  match es with
  | [] => exact reports_pure _
  | e :: es =>
    apply (reports_expr around e).append (reports_exprs around es)
    · intro s
      rfl
    · intro globals frames
      rfl

end

end

structure Prepared (s : State) (known reserved : List String) : Prop where
  running : s.failure = none
  isBound : ∀ name, s.scope.isBound name ↔ name ∈ known
  isReserved : ∀ name, name ∉ known → (s.scope.find? name = some .reserved ↔ name ∈ reserved)

/--
A step of the first pass over a scope, which fails with the first declaration that repeats a name
and reserves the introduced names.
-/
def Prepares (declared : List (String × Identifier)) (introduced : List String)
    (p : Step α) : Prop :=
  FailsFirst (fun s (i : List String × List String) => Prepared s i.1 i.2)
    (fun i => repetitions i.1 declared)
    (fun i => (i.1 ++ declared.map Prod.fst, i.2 ++ introduced)) p

section

variable {declared declared₁ declared₂ : List (String × Identifier)}
  {introduced introduced₁ introduced₂ : List String}

theorem repetitions_append (known : List String) :
    repetitions known (declared₁ ++ declared₂) =
      repetitions known declared₁ ++ repetitions (known ++ declared₁.map Prod.fst) declared₂ := by
  induction declared₁ generalizing known with
  | nil => simp [repetitions]
  | cons d declared₁ ih => simp [repetitions, ih]

theorem Prepares.append {p : Step α} {q : Step β} {m : Step γ}
    (hp : Prepares declared₁ introduced₁ p) (hq : Prepares declared₂ introduced₂ q)
    (hstate : ∀ s, (m s).2 = (q (p s).2).2) :
    Prepares (declared₁ ++ declared₂) (introduced₁ ++ introduced₂) m := by
  apply FailsFirst.append hp hq hstate
  · intro i
    exact repetitions_append i.1
  · intro i
    simp

theorem Prepares.congr {p : Step α} (h : Prepares declared introduced₁ p)
    (hintroduced : ∀ name, name ∈ introduced₁ ↔ name ∈ introduced₂) :
    Prepares declared introduced₂ p := by
  refine ⟨h.stops, h.failure, ?_⟩
  intro s i hs hsuccess
  obtain ⟨hrunning, hbound, hreserved⟩ := h.goesOn s i hs hsuccess
  refine ⟨hrunning, hbound, ?_⟩
  intro name hname
  rw [hreserved name hname, List.mem_append, List.mem_append, hintroduced]

theorem prepares_pure (a : α) : Prepares [] [] (pure a) := by
  constructor
  · intro s hs
    rfl
  · intro s i hs
    exact hs.running
  · intro s i hs hsuccess
    simp only [List.map_nil, List.append_nil]
    exact hs

theorem prepares_reserve (name : String) : Prepares [] [name] (reserve name) := by
  have happly : ∀ s, (reserve name s).2 =
      if s.failure.isSome then s else { s with scope := s.scope.reserve name } := fun s => rfl
  have hrunning : ∀ s known reserved, Prepared s known reserved →
      (reserve name s).2 = { s with scope := s.scope.reserve name } := by
    intro s known reserved hs
    rw [happly, hs.running, if_neg (by simp)]
  constructor
  · intro s hs
    rw [happly, if_pos hs]
  · intro s i hs
    rw [hrunning s i.1 i.2 hs]
    exact hs.running
  · intro s i hs hsuccess
    rw [hrunning s i.1 i.2 hs, List.map_nil, List.append_nil]
    refine ⟨hs.running, ?_, ?_⟩
    · intro other
      rw [← hs.isBound, Scope.isBound_eq_isSome_id?, Scope.isBound_eq_isSome_id?,
        Scope.id?_reserve]
    · intro other hother
      have hreserved := hs.isReserved other hother
      have hunbound := mt (hs.isBound other).1 hother
      unfold Scope.isBound at hunbound
      rw [List.mem_append, List.mem_singleton, ← hreserved]
      simp only [Scope.reserve]
      -- A name that the scope knows keeps its entry, which is a reservation here.
      split
      next hknown =>
        constructor
        · exact .inl
        · rintro (h | rfl)
          · exact h
          · obtain ⟨e, he⟩ := Option.isSome_iff_exists.1 hknown
            rw [he] at hunbound ⊢
            cases e with
            | reserved => rfl
            | bound id => exact absurd rfl hunbound
      next hunknown =>
        rw [Scope.find?_cons]
        by_cases h : other = name
        · simp [h]
        · simp [h]

theorem prepares_define (name : String) (x : Identifier) :
    Prepares [(name, x)] [] (define name x) := by
  constructor
  · exact (hoists_define name x).stops
  · intro s i hs
    have hbound := hs.isBound name
    rw [define_apply, repetitions, repetitions, List.append_nil]
    by_cases h : name ∈ i.1
    · rw [if_pos (hbound.2 h), if_pos h, failure_fail hs.running]
      rfl
    · rw [if_neg (mt hbound.1 h), if_neg h]
      unfold introduce
      rw [hs.running, if_neg (by simp)]
      rfl
  · intro s i hs hsuccess
    rw [define_apply] at hsuccess ⊢
    split at hsuccess
    next h =>
      rw [failure_fail hs.running] at hsuccess
      cases hsuccess
    next h =>
      unfold introduce
      rw [if_neg h, hs.running, if_neg (by simp), List.append_nil]
      refine ⟨rfl, ?_, ?_⟩
      · intro other
        rw [List.mem_append, ← hs.isBound, Scope.isBound_eq_isSome_id?,
          Scope.isBound_eq_isSome_id?, Scope.id?_bind]
        by_cases heq : other = name
        · simp [heq]
        · simp [heq]
      · intro other hother
        rw [List.mem_append, not_or] at hother
        have hne : other ≠ name := fun heq => hother.2 (by simp [heq])
        rw [Scope.bind, Scope.find?_cons, if_neg hne]
        exact hs.isReserved other hother.1

mutual

theorem mem_boundNames_items (e : Expr) (name : String) :
    name ∈ boundNames e.items ↔ name ∈ e.declaredNames := by
  match e with
  | .string _ => rfl
  | .number _ => rfl
  | .identifier _ => rfl
  | .binary _ left right =>
    rw [Expr.items, Expr.declaredNames, boundNames_append, List.mem_append, List.mem_append,
      mem_boundNames_items left, mem_boundNames_items right]
  | .call callee arguments =>
    rw [Expr.items, Expr.declaredNames, boundNames_append, List.mem_append, List.mem_append,
      mem_boundNames_items callee, mem_boundNames_itemsList arguments]
  | .assign target value =>
    rw [Expr.items, Expr.declaredNames, boundNames_append, List.mem_append, List.mem_append,
      mem_boundNames_items target, mem_boundNames_items value]
  | .declare x value =>
    rw [Expr.items, Expr.declaredNames, boundNames_append, List.mem_append, List.mem_cons,
      mem_boundNames_items value, or_comm]
    exact or_congr_left List.mem_singleton

theorem mem_boundNames_itemsList (es : List Expr) (name : String) :
    name ∈ boundNames (Expr.itemsList es) ↔ name ∈ Expr.declaredNamesList es := by
  match es with
  | [] => rfl
  | e :: es =>
    rw [Expr.itemsList, Expr.declaredNamesList, boundNames_append, List.mem_append,
      List.mem_append, mem_boundNames_items e, mem_boundNames_itemsList es]

end

theorem prepares_reserveNames (e : Expr) : Prepares [] (boundNames e.items) e.reserveNames := by
  have hnames : ∀ names : List String, Prepares [] names (names.forM reserve) := by
    intro names
    induction names with
    | nil => exact prepares_pure ()
    | cons name names ih => exact (prepares_reserve name).append ih fun s => rfl
  apply (hnames e.declaredNames).congr
  intro name
  rw [mem_boundNames_items]

theorem prepares_resolveParameters (parameters : List Identifier) :
    Prepares (parametersDeclared parameters) [] (resolveParameters parameters) := by
  induction parameters with
  | nil => exact prepares_pure []
  | cons x xs ih => exact (prepares_define x.name x).append ih fun s => rfl

theorem boundNames_declaration (d : Declaration) : boundNames d.items = [] := by
  cases d <;> rfl

theorem prepares_hoist (b : Block) : Prepares b.hoisted (boundNames (blockItems b)) b.hoist := by
  induction b with
  | nil => exact prepares_pure []
  | cons st b ih =>
    rw [blockItems, boundNames_append]
    cases st with
    | declaration d =>
      rw [Statement.items, boundNames_declaration]
      exact (prepares_define d.qualifiedName d.name).append ih fun s => rfl
    | expression value => exact (prepares_reserveNames value).append ih fun s => rfl
    | «return» value => exact (prepares_reserveNames value).append ih fun s => rfl
    | conditional condition consequent alternative =>
      cases alternative with
      | none => exact ih
      | some alternative => exact ih

theorem prepared_entered {s : State} (h : s.failure = none) : Prepared s.entered [] [] := by
  refine ⟨h, ?_, ?_⟩
  · intro name
    simp [State.entered, Scope.isBound, Scope.find?]
  · intro name _
    simp [State.entered, Scope.find?]

theorem Prepares.matches {s : State} {around : Surroundings} {frames : List Frame} {p : Step α}
    (hp : Prepares declared introduced p) (hs : Matches s around frames)
    (hsuccess : (p s.entered).2.failure = none) :
    Matches (p s.entered).2 (around.enter s.scope) (.enter declared introduced :: frames) := by
  obtain ⟨-, hbound, hreserved⟩ :=
    hp.goesOn s.entered ([], []) (prepared_entered hs.running) hsuccess
  simp only [List.nil_append] at hbound hreserved
  refine ⟨hsuccess, ?_, ?_⟩
  · intro name
    have hdefinition : ((Frame.enter declared introduced).definition? name).isSome ↔
        name ∈ declared.map Prod.fst := by
      simp [Frame.enter, Layer.definition?]
    rw [Surroundings.find?_eq_or, Surroundings.find?_enter, Option.isSome_or, Bool.or_eq_true,
      List.map_cons, isSome_visible?_cons, Bool.or_eq_true, hdefinition,
      ← Scope.isBound_eq_isSome_id?, hbound, hs.visible]
    rfl
  · intro name hnone
    rw [Surroundings.find?_eq_or, Surroundings.find?_enter, Option.or_eq_none_iff] at hnone
    have hunbound : name ∉ declared.map Prod.fst := by
      rw [← hbound, Scope.isBound_eq_isSome_id?, hnone.1]
      simp
    rw [Surroundings.isReserved_eq_or, Surroundings.isReserved_enter, Bool.or_eq_true,
      decide_eq_true_iff, hreserved name hunbound, hs.reserved name hnone.2,
      List.exists_mem_cons_iff]
    rfl

end

section

variable {around : Surroundings} {declared : List (String × Identifier)}
  {introduced : List String} {items : List Item}
  {violations : List (String × Nat) → List Frame → List ResolveError} {p : Step α}
  {g : Surroundings → Step β} {k : Surroundings → Step γ}

theorem failure_inScope (hp : Prepares declared introduced p)
    (hg : ∀ around, Reports around items violations (g around))
    (hstate : ∀ around s, (k around s).2 = (g around (p s).2).2) {s : State}
    {frames : List Frame} (hs : Matches s around frames) :
    (inScope around k s).2.failure =
      (scopeViolations frames declared introduced (violations around.globals)).head? := by
  have hfailure := hp.failure s.entered ([], []) (prepared_entered hs.running)
  have hafter : (inScope around k s).2.failure =
      (g (around.enter s.scope) (p s.entered).2).2.failure := by
    rw [inScope_apply, hstate]
    rfl
  rw [hafter, scopeViolations, List.head?_append]
  cases hfirst : (p s.entered).2.failure with
  | some e =>
    rw [hfirst] at hfailure
    rw [(hg _).stops _ (by rw [hfirst]; rfl), hfirst, ← hfailure]
    rfl
  | none =>
    rw [hfirst] at hfailure
    rw [(hg _).failure _ (.enter declared introduced, frames) (hp.matches hs hfirst), ← hfailure]
    rfl

theorem reports_inScope (hp : Prepares declared introduced p)
    (hg : ∀ around, Reports around items violations (g around))
    (hstate : ∀ around s, (k around s).2 = (g around (p s).2).2) :
    Reports around [.scope declared items]
      (fun globals frames => scopeViolations frames declared introduced (violations globals))
      (inScope around k) := by
  constructor
  · intro s hs
    have hps := hp.stops s.entered hs
    have hgs := (hg (around.enter s.scope)).stops s.entered hs
    have hks := hstate (around.enter s.scope) s.entered
    rw [hps, hgs] at hks
    exact congrArg (fun t : State => { t with scope := s.scope }) hks
  · intro s i hs
    exact failure_inScope hp hg hstate hs
  · intro s i hs hsuccess
    exact (hs.advance rfl).of_scope_eq rfl hsuccess

end

theorem reports_callable {around : Surroundings} {parameters : List Identifier} {b : Block}
    {violations : List (String × Nat) → List Frame → List ResolveError}
    {f : Surroundings → Step Block} (hf : ∀ around, Reports around [b.tree] violations (f around))
    (make : List Identifier → Block → Declaration) :
    Reports around [.scope (parametersDeclared parameters) [b.tree]]
      (fun globals frames =>
        scopeViolations frames (parametersDeclared parameters) [] (violations globals))
      (inScope around fun around => do
        let parameters ← resolveParameters parameters
        let b ← f around
        return make parameters b) := by
  apply reports_inScope (prepares_resolveParameters parameters) hf
  intro around s
  rfl

mutual

theorem reports_statement (around : Surroundings) (st : Statement) :
    Reports around st.items (st.violations · ·) (st.resolve around) := by
  match st with
  | .expression value => exact (reports_expr around value).congr fun s => rfl
  | .return value => exact (reports_expr around value).congr fun s => rfl
  | .declaration d => exact (reports_declaration around d).congr fun s => rfl
  | .conditional condition consequent none =>
    have hparts := fun around =>
      (reports_expr around condition).pair (reports_block around consequent)
    rw [Statement.items, Statement.resolve]
    simp only [Statement.violations]
    apply reports_inScope (prepares_reserveNames condition) hparts
    intro around s
    rfl
  | .conditional condition consequent (some alternative) =>
    have hparts := fun around =>
      ((reports_expr around condition).pair (reports_block around consequent)).pair
        (reports_block around alternative)
    rw [Statement.items, Statement.resolve]
    simp only [Statement.violations]
    apply reports_inScope (prepares_reserveNames condition) hparts
    intro around s
    rfl

theorem reports_declaration (around : Surroundings) (d : Declaration) :
    Reports around d.items (d.violations · ·) (d.resolve around) := by
  match d with
  | .class name body => exact (reports_block around body).congr fun s => rfl
  | .function name parameters body =>
    exact reports_callable (fun around => reports_block around body) _
  | .method owner name parameters body =>
    have hcallable : Reports around (Declaration.items (.function name parameters body))
        (Declaration.violations · · (.function name parameters body))
        (Declaration.resolve around (.function name parameters body)) :=
      reports_callable (fun around => reports_block around body) _
    apply (reports_refer owner).append hcallable
    · intro s
      rfl
    · intro globals frames
      rfl

theorem reports_statements (around : Surroundings) (b : List Statement) :
    Reports around (blockItems b) (statementViolations · · b) (resolveStatements around b) := by
  match b with
  | [] => exact reports_pure _
  | st :: b =>
    apply (reports_statement around st).append (reports_statements around b)
    · intro s
      rfl
    · intro globals frames
      rfl

theorem reports_block (around : Surroundings) (b : Block) :
    Reports around [b.tree]
      (fun globals frames => b.violationsWith frames (statementViolations globals · b))
      (inBlock around b (resolveStatements · b)) := by
  apply reports_inScope (prepares_hoist b) fun around => reports_statements around b
  intro around s
  rfl

end

theorem Session.matches_start (s : Session) : Matches s.start s.surroundings [] := by
  refine ⟨rfl, ?_, ?_⟩
  · intro name
    simp [Surroundings.find?, surroundings, start, visible?, Surroundings.innermost?, Scope.find?]
  · intro name _
    simp [Surroundings.isReserved, surroundings, start, Scope.find?]

/-- The resolution of a block fails with its first violation. -/
theorem Session.failure_resolve (s : Session) (b : Block) :
    (s.resolve b).2.2 = (b.violations s.globals).head? := by
  have hsecond := fun around => reports_statements around b
  rw [Session.resolve_eq]
  exact failure_inScope (prepares_hoist b) hsecond (fun around t => rfl) s.matches_start

example : Block.violations []
    [.declaration (.function ⟨"f", none, ⟨0, 1⟩⟩ []
      [.expression (.identifier ⟨"x", none, ⟨2, 3⟩⟩),
        .expression (.identifier ⟨"y", none, ⟨4, 5⟩⟩)]),
    .expression (.declare ⟨"x", none, ⟨6, 7⟩⟩ (.string "a"))] =
    [.usedBeforeDeclaration "x" ⟨2, 3⟩, .undefinedIdentifier "y" ⟨4, 5⟩] := by
  decide

end Resolution

end LiterateFun
