import LiterateFun.Proofs.Scoping.Session

/-!
This module contains resolution under other ids and other spans. Resolution compares names, but
neither ids nor spans. Two resolutions of a program, from two states in which every name finds the
same up to a renaming of ids, therefore go through the same steps, and the renaming leads from the
outcome of the one to that of the other.
-/

namespace LiterateFun

mutual

theorem Expr.declaredNames_relabel {f : Identifier → Identifier} (hf : ∀ x, (f x).name = x.name)
    (e : Expr) : (e.relabel f).declaredNames = e.declaredNames := by
  match e with
  | .string _ => rfl
  | .number _ => rfl
  | .identifier _ => rfl
  | .binary _ left right =>
    simp only [Expr.relabel, Expr.declaredNames, left.declaredNames_relabel hf,
      right.declaredNames_relabel hf]
  | .call callee arguments =>
    simp only [Expr.relabel, Expr.declaredNames, callee.declaredNames_relabel hf,
      Expr.declaredNamesList_relabelList hf arguments]
  | .assign target value =>
    simp only [Expr.relabel, Expr.declaredNames, target.declaredNames_relabel hf,
      value.declaredNames_relabel hf]
  | .declare x value =>
    simp only [Expr.relabel, Expr.declaredNames, value.declaredNames_relabel hf, hf]

theorem Expr.declaredNamesList_relabelList {f : Identifier → Identifier}
    (hf : ∀ x, (f x).name = x.name) (es : List Expr) :
    Expr.declaredNamesList (Expr.relabelList f es) = Expr.declaredNamesList es := by
  match es with
  | [] => rfl
  | e :: es =>
    simp only [Expr.relabelList, Expr.declaredNamesList, e.declaredNames_relabel hf,
      Expr.declaredNamesList_relabelList hf es]

end

theorem Declaration.qualifiedName_relabel {f : Identifier → Identifier}
    (hf : ∀ x, (f x).name = x.name) (d : Declaration) :
    (d.relabel f).qualifiedName = d.qualifiedName := by
  cases d <;> simp [Declaration.relabel, Declaration.qualifiedName, hf]

theorem Block.withNames_relabel (f : Identifier → Identifier) (b : Block)
    (names : List Identifier) :
    Block.withNames (relabelStatements f b) (names.map f) =
      relabelStatements f (b.withNames names) := by
  induction b generalizing names with
  | nil => rfl
  | cons st b ih =>
    by_cases hd : ∃ d, st = .declaration d
    · obtain ⟨d, rfl⟩ := hd
      cases names with
      | nil =>
        rw [List.map_nil, Block.withNames_nil, Block.withNames_nil]
      | cons name names =>
        rw [List.map_cons, Block.withNames, relabelStatements, relabelStatements, Statement.relabel,
          Statement.relabel, Block.withNames, ih, Declaration.withName_relabel]
    · have hst : ∀ d, st ≠ .declaration d := fun d h => hd ⟨d, h⟩
      have hst' : ∀ d, st.relabel f ≠ .declaration d := by
        intro d h
        obtain ⟨c, hc, -⟩ := Statement.relabel_eq_declaration h
        exact hst c hc
      rw [relabelStatements, Block.withNames_cons hst', ih, Block.withNames_cons hst,
        relabelStatements]

structure Renaming where
  id : Nat → Nat
  span : Span → Span

namespace Renaming

def identifier (r : Renaming) (x : Identifier) : Identifier where
  name := x.name
  id := x.id.map r.id
  span := r.span x.span

def entry (r : Renaming) : Entry → Entry
  | .reserved => .reserved
  | .bound id => .bound (r.id id)

def error (r : Renaming) : ResolveError → ResolveError
  | .duplicateDefinition name span => .duplicateDefinition name (r.span span)
  | .undefinedIdentifier name span => .undefinedIdentifier name (r.span span)
  | .usedBeforeDeclaration name span => .usedBeforeDeclaration name (r.span span)
  | .invalidAssignmentTarget => .invalidAssignmentTarget

@[simp]
theorem name_identifier (r : Renaming) (x : Identifier) : (r.identifier x).name = x.name := rfl

theorem error_eq_self {r : Renaming} (h : ∀ span, r.span span = span) (e : ResolveError) :
    r.error e = e := by
  cases e <;> simp [error, h]

theorem identifier_eq_self {r : Renaming} (h : ∀ span, r.span span = span) {x : Identifier}
    (hx : ∀ id, x.id = some id → r.id id = id) : r.identifier x = x := by
  obtain ⟨name, id, span⟩ := x
  cases id with
  | none => simp [identifier, h]
  | some id => simp [identifier, h, hx id rfl]

def SameScope (r : Renaming) (s t : Scope) : Prop :=
  ∀ name, t.find? name = (s.find? name).map r.entry

theorem SameScope.id? {r : Renaming} {s t : Scope} (h : r.SameScope s t) (name : String) :
    t.id? name = (s.id? name).map r.id := by
  unfold Scope.id?
  rw [h name]
  cases s.find? name with
  | none => rfl
  | some e => cases e <;> rfl

theorem SameScope.isBound {r : Renaming} {s t : Scope} (h : r.SameScope s t) (name : String) :
    t.isBound name = s.isBound name := by
  rw [Scope.isBound_eq_isSome_id?, Scope.isBound_eq_isSome_id?, h.id?, Option.isSome_map]

theorem SameScope.find?_eq_reserved_iff {r : Renaming} {s t : Scope} (h : r.SameScope s t)
    (name : String) : t.find? name = some .reserved ↔ s.find? name = some .reserved := by
  rw [h name]
  cases s.find? name with
  | none => simp
  | some e => cases e <;> simp [entry]

theorem sameScope_nil (r : Renaming) : r.SameScope [] [] := by
  intro name
  rfl

theorem SameScope.bind {r : Renaming} {s t : Scope} (h : r.SameScope s t) (name : String)
    (id : Nat) : r.SameScope (s.bind name id) (t.bind name (r.id id)) := by
  intro other
  unfold Scope.bind
  rw [Scope.find?_cons, Scope.find?_cons, h other]
  by_cases hname : other = name
  · rw [if_pos hname, if_pos hname]
    rfl
  · rw [if_neg hname, if_neg hname]

theorem SameScope.reserve {r : Renaming} {s t : Scope} (h : r.SameScope s t) (name : String) :
    r.SameScope (s.reserve name) (t.reserve name) := by
  unfold Scope.reserve
  rw [h name, Option.isSome_map]
  split
  · exact h
  · intro other
    rw [Scope.find?_cons, Scope.find?_cons, h other]
    by_cases hname : other = name
    · rw [if_pos hname, if_pos hname]
      rfl
    · rw [if_neg hname, if_neg hname]

/-- From inside of the scopes every name finds the same, up to the renaming. -/
structure SameView (r : Renaming) (a b : Surroundings) (s t : Scope) : Prop where
  find? : ∀ name, b.find? t name = (a.find? s name).map r.id
  isReserved : ∀ name, b.isReserved t name = a.isReserved s name

end Renaming

theorem Surroundings.find?_eq_or (a : Surroundings) (s : Scope) (name : String) :
    a.find? s name = (s.id? name).or (a.find? [] name) := by
  unfold Surroundings.find?
  rw [innermost?_cons, innermost?_cons]
  cases s.id? name <;> rfl

theorem Surroundings.find?_enter (a : Surroundings) (s : Scope) (name : String) :
    (a.enter s).find? [] name = a.find? s name := by
  unfold Surroundings.find? Surroundings.enter
  rw [innermost?_cons]
  rfl

theorem Surroundings.isReserved_eq_or (a : Surroundings) (s : Scope) (name : String) :
    a.isReserved s name = (decide (s.find? name = some .reserved) || a.isReserved [] name) := by
  simp [Surroundings.isReserved, Scope.find?]

theorem Surroundings.isReserved_enter (a : Surroundings) (s : Scope) (name : String) :
    (a.enter s).isReserved [] name = a.isReserved s name := by
  simp [Surroundings.isReserved, Surroundings.enter, Scope.find?]

namespace Renaming

theorem SameView.enter {r : Renaming} {a b : Surroundings} {s t : Scope}
    (h : r.SameView a b s t) : r.SameView (a.enter s) (b.enter t) [] [] := by
  constructor
  · intro name
    rw [Surroundings.find?_enter, Surroundings.find?_enter, h.find?]
  · intro name
    rw [Surroundings.isReserved_enter, Surroundings.isReserved_enter, h.isReserved]

theorem SameView.within {r : Renaming} {a b : Surroundings} {s t : Scope}
    (h : r.SameView a b [] []) (hscope : r.SameScope s t) : r.SameView a b s t := by
  constructor
  · intro name
    rw [Surroundings.find?_eq_or, Surroundings.find?_eq_or a, hscope.id?, h.find?]
    cases s.id? name <;> rfl
  · intro name
    rw [Surroundings.isReserved_eq_or, Surroundings.isReserved_eq_or a, h.isReserved,
      decide_eq_decide.2 (hscope.find?_eq_reserved_iff name)]

def Grown (r : Renaming) (first second xs ys : List Identifier) : Prop :=
  ∃ new, xs = first ++ new ∧ ys = second ++ new.map r.identifier

theorem grown_nil (r : Renaming) (xs ys : List Identifier) : r.Grown xs ys xs ys :=
  ⟨[], (List.append_nil xs).symm, (List.append_nil ys).symm⟩

theorem Grown.concat {r : Renaming} {first second xs ys : List Identifier}
    (h : r.Grown first second xs ys) (x : Identifier) :
    r.Grown first second (xs ++ [x]) (ys ++ [r.identifier x]) := by
  obtain ⟨new, rfl, rfl⟩ := h
  exact ⟨new ++ [x], by simp, by simp⟩

theorem Grown.eq_map {r : Renaming} {first second xs ys : List Identifier}
    (h : r.Grown first second xs ys) (hstart : second = first.map r.identifier) :
    ys = xs.map r.identifier := by
  obtain ⟨new, rfl, rfl⟩ := h
  rw [hstart, List.map_append]

end Renaming

namespace Resolution

theorem grown_noteRebound {r : Renaming} {first second xs ys : List Identifier}
    (h : r.Grown first second xs ys) (x : Identifier) :
    r.Grown first second (noteRebound xs x) (noteRebound ys (r.identifier x)) := by
  unfold noteRebound Renaming.identifier
  rw [Option.isSome_map]
  split
  · exact h.concat x
  · exact h

/-- Two resolutions side by side, where a renaming leads from the ids of the first to the second. -/
structure Twins (r : Renaming) where
  first : State
  second : State
  /-- An id that the first resolution does not reach. -/
  last : Nat
  carries : ∀ id, first.nextId ≤ id → id < last → r.id id = second.nextId + (id - first.nextId)

namespace Twins

variable {r : Renaming} {twins : Twins r} {related : Scope → Scope → Prop}

/-- Both resolutions have come to the same point, where their scopes are related. -/
structure Aligned (twins : Twins r) (related : Scope → Scope → Prop) (s t : State) : Prop where
  scope : related s.scope t.scope
  failure : t.failure = s.failure.map r.error
  le : twins.first.nextId ≤ s.nextId
  nextId : t.nextId + twins.first.nextId = twins.second.nextId + s.nextId
  definitions :
    r.Grown twins.first.definitions twins.second.definitions s.definitions t.definitions
  references : r.Grown twins.first.references twins.second.references s.references t.references
  rebound : r.Grown twins.first.rebound twins.second.rebound s.rebound t.rebound

theorem aligned_start (hscope : related twins.first.scope twins.second.scope)
    (hfailure : twins.second.failure = twins.first.failure.map r.error) :
    twins.Aligned related twins.first twins.second where
  scope := hscope
  failure := hfailure
  le := Nat.le_refl _
  nextId := rfl
  definitions := r.grown_nil _ _
  references := r.grown_nil _ _
  rebound := r.grown_nil _ _

theorem Aligned.id_nextId {s t : State} (h : twins.Aligned related s t)
    (hlast : s.nextId < twins.last) : r.id s.nextId = t.nextId := by
  have hle := h.le
  have hnext := h.nextId
  rw [twins.carries s.nextId hle hlast]
  omega

theorem Aligned.isSome_failure {s t : State} (h : twins.Aligned related s t) :
    t.failure.isSome = s.failure.isSome := by
  rw [h.failure, Option.isSome_map]

/-- The second step does what the first one does, up to the renaming. -/
structure Follows (twins : Twins r) (related : Scope → Scope → Prop) (f : Step α) (g : Step β)
    (view : α → β) : Prop where
  grows : ∀ s, s.nextId ≤ (f s).2.nextId
  aligned : ∀ s t, twins.Aligned related s t → (f s).2.nextId ≤ twins.last →
    (g t).1 = view (f s).1 ∧ twins.Aligned related (f s).2 (g t).2

theorem follows_pure {a : α} {b : β} {view : α → β} (h : b = view a) :
    twins.Follows related (pure a) (pure b) view := by
  constructor
  · intro s
    apply Nat.le_refl
  · intro s t hst _
    exact ⟨h, hst⟩

theorem Follows.bind {f : Step α} {f' : Step α'} {g : α → Step β} {g' : α' → Step β'}
    {view : α → α'} {view' : β → β'} (hf : twins.Follows related f f' view)
    (hg : ∀ a, twins.Follows related (g a) (g' (view a)) view') :
    twins.Follows related (f >>= g) (f' >>= g') view' := by
  constructor
  · intro s
    rw [bind_apply]
    exact Nat.le_trans (hf.grows s) ((hg _).grows _)
  · intro s t hst hlast
    rw [bind_apply] at hlast ⊢
    obtain ⟨hvalue, hnext⟩ := hf.aligned s t hst (Nat.le_trans ((hg _).grows _) hlast)
    rw [bind_apply, hvalue]
    exact (hg _).aligned _ _ hnext hlast

theorem follows_fail (e : ResolveError) :
    twins.Follows related (fail e) (fail (r.error e)) id := by
  have happly : ∀ e s, (fail e s).2 =
      if s.failure.isSome then s else { s with failure := some e } := fun e s => rfl
  constructor
  · intro s
    rw [happly]
    split <;> apply Nat.le_refl
  · intro s t hst _
    refine ⟨rfl, ?_⟩
    rw [happly, happly, hst.isSome_failure]
    split
    · exact hst
    · exact ⟨hst.scope, rfl, hst.le, hst.nextId, hst.definitions, hst.references, hst.rebound⟩

theorem follows_reserve (name : String) :
    twins.Follows r.SameScope (reserve name) (reserve name) id := by
  have happly : ∀ s, (reserve name s).2 =
      if s.failure.isSome then s else { s with scope := s.scope.reserve name } := fun s => rfl
  constructor
  · intro s
    rw [happly]
    split <;> apply Nat.le_refl
  · intro s t hst _
    refine ⟨rfl, ?_⟩
    rw [happly, happly, hst.isSome_failure]
    split
    · exact hst
    · exact ⟨hst.scope.reserve name, hst.failure, hst.le, hst.nextId, hst.definitions,
        hst.references, hst.rebound⟩

theorem follows_introduce (name : String) (x : Identifier) :
    twins.Follows r.SameScope (introduce name x) (introduce name (r.identifier x))
      r.identifier := by
  constructor
  · intro s
    unfold introduce
    split
    · apply Nat.le_refl
    · apply Nat.le_succ
  · intro s t hst hlast
    unfold introduce at hlast ⊢
    rw [hst.isSome_failure]
    split
    · exact ⟨rfl, hst⟩
    next hs =>
      rw [if_neg hs] at hlast
      have hid := hst.id_nextId hlast
      have hbound : { r.identifier x with id := some t.nextId } =
          r.identifier { x with id := some s.nextId } := by
        simp [Renaming.identifier, hid]
      refine ⟨hbound, ?_, hst.failure, Nat.le_succ_of_le hst.le, ?_, ?_, hst.references, ?_⟩
      · rw [← hid]
        exact hst.scope.bind name s.nextId
      · have hnext := hst.nextId
        change t.nextId + 1 + twins.first.nextId = twins.second.nextId + (s.nextId + 1)
        omega
      · simp only [hbound]
        exact hst.definitions.concat _
      · exact grown_noteRebound hst.rebound x

theorem follows_define (name : String) (x : Identifier) :
    twins.Follows r.SameScope (define name x) (define name (r.identifier x)) r.identifier := by
  have hfail : twins.Follows r.SameScope
      (do
        fail (.duplicateDefinition name x.span)
        return x)
      (do
        fail (.duplicateDefinition name (r.identifier x).span)
        return r.identifier x)
      r.identifier := (follows_fail _).bind fun _ => follows_pure rfl
  have hintroduce : twins.Follows r.SameScope (introduce name x) (introduce name (r.identifier x))
      r.identifier := follows_introduce name x
  constructor
  · intro s
    rw [define_apply]
    split
    · exact hfail.grows s
    · exact hintroduce.grows s
  · intro s t hst
    rw [define_apply, define_apply, hst.scope.isBound]
    split
    · exact hfail.aligned s t hst
    · exact hintroduce.aligned s t hst

theorem follows_refer {a b : Surroundings}
    (hview : ∀ s t, related s t → r.SameView a b s t) (x : Identifier) :
    twins.Follows related (refer a x) (refer b (r.identifier x)) r.identifier := by
  constructor
  · intro s
    unfold refer
    split
    · apply Nat.le_refl
    · split <;> apply Nat.le_refl
  · intro s t hst _
    have hsame := hview _ _ hst.scope
    unfold refer
    rw [hst.isSome_failure, Renaming.name_identifier, hsame.find?, hsame.isReserved]
    split
    · exact ⟨rfl, hst⟩
    · cases a.find? s.scope x.name with
      | none =>
        refine ⟨rfl, hst.scope, ?_, hst.le, hst.nextId, hst.definitions, hst.references,
          hst.rebound⟩
        simp only [Option.map_none, Option.map_some, Option.some.injEq]
        split <;> rfl
      | some id =>
        exact ⟨rfl, hst.scope, hst.failure, hst.le, hst.nextId, hst.definitions,
          hst.references.concat _, grown_noteRebound hst.rebound x⟩

theorem follows_inScope {a b : Surroundings} {f : Surroundings → Step α} {g : Surroundings → Step β}
    {view : α → β} (hview : ∀ s t, related s t → r.SameView a b s t)
    (hgrows : ∀ s, s.nextId ≤ (inScope a f s).2.nextId)
    (h : ∀ {a b}, r.SameView a b [] [] → twins.Follows r.SameScope (f a) (g b) view) :
    twins.Follows related (inScope a f) (inScope b g) view := by
  constructor
  · exact hgrows
  · intro s t hst hlast
    rw [inScope_apply] at hlast ⊢
    rw [inScope_apply]
    have hentered : twins.Aligned r.SameScope { s with scope := [] } { t with scope := [] } :=
      ⟨r.sameScope_nil, hst.failure, hst.le, hst.nextId, hst.definitions, hst.references,
        hst.rebound⟩
    obtain ⟨hvalue, hend⟩ := (h (hview _ _ hst.scope).enter).aligned _ _ hentered hlast
    exact ⟨hvalue, hst.scope, hend.failure, hend.le, hend.nextId, hend.definitions, hend.references,
      hend.rebound⟩

theorem follows_reserveNames (e : Expr) :
    twins.Follows r.SameScope e.reserveNames (e.relabel r.identifier).reserveNames id := by
  unfold Expr.reserveNames
  rw [Expr.declaredNames_relabel r.name_identifier]
  induction e.declaredNames with
  | nil => exact follows_pure rfl
  | cons name names ih => exact (follows_reserve name).bind fun _ => ih

mutual

theorem follows_expr {a b : Surroundings} (h : r.SameView a b [] []) (e : Expr) :
    twins.Follows r.SameScope (e.resolve a) ((e.relabel r.identifier).resolve b)
      (Expr.relabel r.identifier) := by
  match e with
  | .string _ => exact follows_pure rfl
  | .number _ => exact follows_pure rfl
  | .identifier x => exact (follows_refer (fun _ _ => h.within) x).bind fun _ => follows_pure rfl
  | .binary op left right =>
    apply (follows_expr h left).bind
    intro left
    apply (follows_expr h right).bind
    intro right
    exact follows_pure rfl
  | .call callee arguments =>
    apply (follows_expr h callee).bind
    intro callee
    apply (follows_exprs h arguments).bind
    intro arguments
    exact follows_pure rfl
  | .assign (.identifier x) value =>
    apply (follows_refer (fun _ _ => h.within) x).bind
    intro x
    apply (follows_expr h value).bind
    intro value
    exact follows_pure rfl
  | .assign (.string _) _ => exact (follows_fail _).bind fun _ => follows_pure rfl
  | .assign (.number _) _ => exact (follows_fail _).bind fun _ => follows_pure rfl
  | .assign (.binary ..) _ => exact (follows_fail _).bind fun _ => follows_pure rfl
  | .assign (.call ..) _ => exact (follows_fail _).bind fun _ => follows_pure rfl
  | .assign (.assign ..) _ => exact (follows_fail _).bind fun _ => follows_pure rfl
  | .assign (.declare ..) _ => exact (follows_fail _).bind fun _ => follows_pure rfl
  | .declare x value =>
    apply (follows_expr h value).bind
    intro value
    apply (follows_introduce x.name x).bind
    intro x
    exact follows_pure rfl

theorem follows_exprs {a b : Surroundings} (h : r.SameView a b [] []) (es : List Expr) :
    twins.Follows r.SameScope (Expr.resolveList a es)
      (Expr.resolveList b (Expr.relabelList r.identifier es)) (Expr.relabelList r.identifier) := by
  match es with
  | [] => exact follows_pure rfl
  | e :: es =>
    apply (follows_expr h e).bind
    intro e
    apply (follows_exprs h es).bind
    intro es
    exact follows_pure rfl

end

theorem follows_hoist (b : Block) :
    twins.Follows r.SameScope b.hoist (Block.hoist (relabelStatements r.identifier b))
      (List.map r.identifier) := by
  induction b with
  | nil => exact follows_pure rfl
  | cons st b ih =>
    match st with
    | .declaration d =>
      rw [relabelStatements, Statement.relabel, Block.hoist, Block.hoist,
        Declaration.qualifiedName_relabel r.name_identifier, Declaration.name_relabel]
      apply (follows_define d.qualifiedName d.name).bind
      intro name
      apply ih.bind
      intro names
      exact follows_pure rfl
    | .expression value => exact (follows_reserveNames value).bind fun _ => ih
    | .return value => exact (follows_reserveNames value).bind fun _ => ih
    | .conditional _ _ none => exact ih
    | .conditional _ _ (some _) => exact ih

theorem follows_resolveParameters (parameters : List Identifier) :
    twins.Follows r.SameScope (resolveParameters parameters)
      (resolveParameters (parameters.map r.identifier)) (List.map r.identifier) := by
  induction parameters with
  | nil => exact follows_pure rfl
  | cons x xs ih =>
    apply (follows_define x.name x).bind
    intro x
    apply ih.bind
    intro xs
    exact follows_pure rfl

theorem follows_callable {a b : Surroundings} (hview : ∀ s t, related s t → r.SameView a b s t)
    (parameters : List Identifier) {body : Block}
    {make make' : List Identifier → Block → Declaration}
    (hbody : ∀ {a b}, (∀ s t, r.SameScope s t → r.SameView a b s t) →
      twins.Follows r.SameScope (inBlock a body (resolveStatements · body))
        (inBlock b (relabelStatements r.identifier body)
          (resolveStatements · (relabelStatements r.identifier body)))
        (relabelStatements r.identifier))
    (hmake : ∀ parameters body,
      make' (parameters.map r.identifier) (relabelStatements r.identifier body) =
        (make parameters body).relabel r.identifier) :
    twins.Follows related
      (inScope a fun around => do
        let parameters ← resolveParameters parameters
        let body ← inBlock around body (resolveStatements · body)
        return make parameters body)
      (inScope b fun around => do
        let parameters ← resolveParameters (parameters.map r.identifier)
        let body ← inBlock around (relabelStatements r.identifier body)
          (resolveStatements · (relabelStatements r.identifier body))
        return make' parameters body)
      (Declaration.relabel r.identifier) := by
  apply follows_inScope hview
  · exact (resolves_declaration a (.function default parameters body)).grows
  · intro a b h
    apply (follows_resolveParameters parameters).bind
    intro parameters
    apply (hbody fun _ _ => h.within).bind
    intro body
    exact follows_pure (hmake parameters body)

mutual

theorem follows_statement {a b : Surroundings} (h : r.SameView a b [] []) (st : Statement) :
    twins.Follows r.SameScope (st.resolve a) ((st.relabel r.identifier).resolve b)
      (Statement.relabel r.identifier) := by
  match st with
  | .expression value => exact (follows_expr h value).bind fun _ => follows_pure rfl
  | .return value => exact (follows_expr h value).bind fun _ => follows_pure rfl
  | .declaration d =>
    exact (follows_declaration (fun _ _ => h.within) d).bind fun _ => follows_pure rfl
  | .conditional condition consequent none =>
    rw [Statement.relabel, Statement.resolve, Statement.resolve]
    apply follows_inScope fun _ _ => h.within
    · exact (resolves_statement a (.conditional condition consequent none)).grows
    · intro a b h
      apply (follows_reserveNames condition).bind
      intro _
      apply (follows_expr h condition).bind
      intro condition
      apply (follows_block (fun _ _ => h.within) consequent).bind
      intro consequent
      exact follows_pure rfl
  | .conditional condition consequent (some alternative) =>
    rw [Statement.relabel, Statement.resolve, Statement.resolve]
    apply follows_inScope fun _ _ => h.within
    · exact (resolves_statement a (.conditional condition consequent (some alternative))).grows
    · intro a b h
      apply (follows_reserveNames condition).bind
      intro _
      apply (follows_expr h condition).bind
      intro condition
      apply (follows_block (fun _ _ => h.within) consequent).bind
      intro consequent
      apply (follows_block (fun _ _ => h.within) alternative).bind
      intro alternative
      exact follows_pure rfl

theorem follows_declaration {a b : Surroundings} {related : Scope → Scope → Prop}
    (hview : ∀ s t, related s t → r.SameView a b s t) (d : Declaration) :
    twins.Follows related (d.resolve a) ((d.relabel r.identifier).resolve b)
      (Declaration.relabel r.identifier) := by
  match d with
  | .class name body => exact (follows_block hview body).bind fun _ => follows_pure rfl
  | .function name parameters body =>
    exact follows_callable hview parameters (fun hview => follows_block hview body) fun _ _ => rfl
  | .method owner name parameters body =>
    apply (follows_refer hview owner).bind
    intro owner
    exact follows_callable hview parameters (fun hview => follows_block hview body) fun _ _ => rfl

theorem follows_statements {a b : Surroundings} (h : r.SameView a b [] []) (c : List Statement) :
    twins.Follows r.SameScope (resolveStatements a c)
      (resolveStatements b (relabelStatements r.identifier c))
      (relabelStatements r.identifier) := by
  match c with
  | [] => exact follows_pure rfl
  | st :: c =>
    apply (follows_statement h st).bind
    intro st
    apply (follows_statements h c).bind
    intro c
    exact follows_pure rfl

theorem follows_block {a b : Surroundings} {related : Scope → Scope → Prop}
    (hview : ∀ s t, related s t → r.SameView a b s t) (c : Block) :
    twins.Follows related (inBlock a c (resolveStatements · c))
      (inBlock b (relabelStatements r.identifier c)
        (resolveStatements · (relabelStatements r.identifier c)))
      (relabelStatements r.identifier) := by
  apply follows_inScope hview (resolves_block a c).grows
  intro a b h
  apply (follows_hoist c).bind
  intro names
  apply (follows_statements h c).bind
  intro c
  exact follows_pure (Block.withNames_relabel r.identifier c names)

end

theorem follows_declarations {a b : Surroundings}
    (hview : ∀ s t, related s t → r.SameView a b s t) (ds : List Declaration) :
    twins.Follows related (Session.resolveDeclarations a ds)
      (Session.resolveDeclarations b (ds.map (Declaration.relabel r.identifier)))
      (List.map (Declaration.relabel r.identifier)) := by
  induction ds with
  | nil => exact follows_pure rfl
  | cons d ds ih =>
    apply (follows_declaration hview d).bind
    intro d
    apply ih.bind
    intro ds
    exact follows_pure rfl

end Twins

end Resolution

open Resolution

namespace Renaming

def sites (r : Renaming) (s : Sites) : Sites where
  definitions := s.definitions.map r.identifier
  references := s.references.map r.identifier
  rebound := s.rebound.map r.identifier

def outcome (r : Renaming) (o : Except ResolveError Sites) : Except ResolveError Sites :=
  (o.map r.sites).mapError r.error

end Renaming

namespace Resolution

theorem Twins.Aligned.outcome_eq {r : Renaming} {twins : Twins r} {related : Scope → Scope → Prop}
    {s t : State} (h : twins.Aligned related s t)
    (hdefinitions : twins.second.definitions = twins.first.definitions.map r.identifier)
    (hreferences : twins.second.references = twins.first.references.map r.identifier)
    (hrebound : twins.second.rebound = twins.first.rebound.map r.identifier) :
    outcome t = r.outcome (outcome s) := by
  unfold outcome
  rw [h.failure, h.definitions.eq_map hdefinitions, h.references.eq_map hreferences,
    h.rebound.eq_map hrebound]
  cases s.failure <;> rfl

theorem Session.sameView {r : Renaming} {s t : Session}
    (h : ∀ name, t.globals.lookup name = (s.globals.lookup name).map r.id) :
    r.SameView s.surroundings t.surroundings [] [] := by
  constructor
  · exact h
  · intro name
    rfl

end Resolution

end LiterateFun
