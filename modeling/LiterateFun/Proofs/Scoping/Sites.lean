import LiterateFun.Proofs.Scoping.Block

/-!
This module contains what resolution records: whether it succeeds or fails, it records every
identifier that it binds once, and it binds none that has a binding already.
-/

namespace LiterateFun

inductive Mark
  /-- The definition of a name, which the definition is known under. -/
  | definition (name : String) (x : Identifier)
  | reference (x : Identifier)

namespace Mark

def identifier : Mark → Identifier
  | .definition _ x => x
  | .reference x => x

def definition? : Mark → Option (String × Identifier)
  | .definition name x => some (name, x)
  | .reference _ => none

def reference? : Mark → Option Identifier
  | .definition .. => none
  | .reference x => some x

def isBound (m : Mark) : Bool :=
  m.identifier.id.isSome

theorem reference?_eq_some_iff {m : Mark} {x : Identifier} :
    m.reference? = some x ↔ m = .reference x := by
  cases m <;> simp [reference?]

end Mark

def declaredMarks (declared : List (String × Identifier)) : List Mark :=
  declared.map fun p => .definition p.1 p.2

mutual

def Item.marks : Item → List Mark
  | .use x => [.reference x]
  | .bind x => [.definition x.name x]
  | .scope declared items => declaredMarks declared ++ marksOf items

def marksOf : List Item → List Mark
  | [] => []
  | i :: items => i.marks ++ marksOf items

end

theorem marksOf_append (items₁ items₂ : List Item) :
    marksOf (items₁ ++ items₂) = marksOf items₁ ++ marksOf items₂ := by
  induction items₁ with
  | nil => rfl
  | cons i items₁ ih => rw [List.cons_append, marksOf, marksOf, ih, List.append_assoc]

theorem marksOf_singleton (i : Item) : marksOf [i] = i.marks := by
  rw [marksOf, marksOf, List.append_nil]

theorem marksOf_conditional_none (condition : Expr) (consequent : Block) :
    marksOf (Statement.conditional condition consequent none).items =
      marksOf condition.items ++ consequent.tree.marks := by
  rw [Statement.items, marksOf_singleton, Item.marks, marksOf_append, marksOf_singleton]
  rfl

theorem marksOf_conditional_some (condition : Expr) (consequent alternative : Block) :
    marksOf (Statement.conditional condition consequent (some alternative)).items =
      marksOf condition.items ++ consequent.tree.marks ++ alternative.tree.marks := by
  rw [Statement.items, marksOf_singleton, Item.marks, marksOf_append, marksOf_append,
    marksOf_singleton, marksOf_singleton]
  rfl

theorem marksOf_function (name : Identifier) (parameters : List Identifier) (body : Block) :
    marksOf (Declaration.function name parameters body).items =
      declaredMarks (parametersDeclared parameters) ++ body.tree.marks := by
  rw [Declaration.items, marksOf_singleton, Item.marks, marksOf_singleton, Block.tree]

namespace Resolution

def Offers (around : Surroundings) (scope : Scope) (name : String) (id : Nat) : Prop :=
  (∃ s ∈ scope :: around.scopes, s.id? name = some id) ∨ around.globals.lookup name = some id

theorem offers_of_find? {around : Surroundings} {scope : Scope} {name : String} {id : Nat}
    (h : around.find? scope name = some id) : Offers around scope name id := by
  unfold Surroundings.find? at h
  generalize hscopes : scope :: around.scopes = scopes at h
  rw [Offers, hscopes]
  clear hscopes
  induction scopes with
  | nil => exact .inr h
  | cons s scopes ih =>
    rw [Surroundings.innermost?_cons] at h
    cases hs : s.id? name with
    | some id' =>
      rw [hs] at h
      cases h
      exact .inl ⟨s, List.mem_cons_self, hs⟩
    | none =>
      rw [hs, Option.none_or] at h
      obtain ⟨s', hs', hid⟩ | hglobal := ih h
      · exact .inl ⟨s', List.mem_cons_of_mem _ hs', hid⟩
      · exact .inr hglobal

theorem Offers.leave {around : Surroundings} {scope : Scope} {name : String} {id : Nat}
    (h : Offers (around.enter scope) [] name id) : Offers around scope name id := by
  obtain ⟨s, hs, hid⟩ | hglobal := h
  · cases hs with
    | head => cases hid
    | tail _ hs => exact .inl ⟨s, hs, hid⟩
  · exact .inr hglobal

def Defines (marks : List Mark) (name : String) (id : Nat) : Prop :=
  ∃ x, .definition name x ∈ marks ∧ x.id = some id

theorem Defines.mono {marks marks' : List Mark} {name : String} {id : Nat}
    (h : Defines marks name id) (hsubset : marks ⊆ marks') : Defines marks' name id := by
  obtain ⟨x, hx, hid⟩ := h
  exact ⟨x, hsubset hx, hid⟩

structure Records (around : Surroundings) (s t : State) (marks : List Mark) : Prop where
  definitions : t.definitions = s.definitions ++ (marks.filterMap Mark.definition?).map Prod.snd
  references : t.references = s.references ++ marks.filterMap Mark.reference?
  nextId : t.nextId = s.nextId + (marks.filterMap Mark.definition?).length
  ids : (marks.filterMap Mark.definition?).map (fun p => p.2.id) =
    (List.range' s.nextId (marks.filterMap Mark.definition?).length).map some
  rebound : t.rebound = s.rebound
  scope : ∀ name id, t.scope.id? name = some id → s.scope.id? name = some id ∨ Defines marks name id
  found : ∀ x, .reference x ∈ marks →
    ∃ id, x.id = some id ∧ (Offers around s.scope x.name id ∨ Defines marks x.name id)

theorem Records.offers {around : Surroundings} {s t : State} {marks : List Mark} {name : String}
    {id : Nat} (h : Records around s t marks) (hoffers : Offers around t.scope name id) :
    Offers around s.scope name id ∨ Defines marks name id := by
  obtain ⟨sc, hsc, hid⟩ | hglobal := hoffers
  · cases hsc with
    | head =>
      cases h.scope name id hid with
      | inl hid => exact .inl (.inl ⟨s.scope, List.mem_cons_self, hid⟩)
      | inr hdefines => exact .inr hdefines
    | tail _ hsc => exact .inl (.inl ⟨sc, List.mem_cons_of_mem _ hsc, hid⟩)
  · exact .inl (.inr hglobal)

theorem records_nil {around : Surroundings} {s t : State}
    (hdefinitions : t.definitions = s.definitions) (hreferences : t.references = s.references)
    (hnext : t.nextId = s.nextId) (hrebound : t.rebound = s.rebound)
    (hscope : ∀ name, t.scope.id? name = s.scope.id? name) : Records around s t [] := by
  constructor
  · simp [hdefinitions]
  · simp [hreferences]
  · exact hnext
  · rfl
  · exact hrebound
  · intro name id hid
    rw [hscope] at hid
    exact .inl hid
  · intro x hx
    cases hx

theorem Records.append_of_offers {around around' : Surroundings} {s t u : State}
    {marks₁ marks₂ : List Mark} (h₁ : Records around s t marks₁) (h₂ : Records around' t u marks₂)
    (hoffers : ∀ name id, Offers around' t.scope name id →
      Offers around s.scope name id ∨ Defines marks₁ name id) :
    Records around s u (marks₁ ++ marks₂) := by
  have hleft := List.subset_append_left marks₁ marks₂
  have hright := List.subset_append_right marks₁ marks₂
  constructor
  · rw [h₂.definitions, h₁.definitions, List.filterMap_append, List.map_append, List.append_assoc]
  · rw [h₂.references, h₁.references, List.filterMap_append, List.append_assoc]
  · rw [h₂.nextId, h₁.nextId, List.filterMap_append, List.length_append, Nat.add_assoc]
  · rw [List.filterMap_append, List.map_append, h₁.ids, h₂.ids, h₁.nextId, List.length_append,
      ← List.map_append, List.range'_append_1]
  · rw [h₂.rebound, h₁.rebound]
  · intro name id hid
    cases h₂.scope name id hid with
    | inl hid => exact (h₁.scope name id hid).imp_right fun h => h.mono hleft
    | inr hdefines => exact .inr (hdefines.mono hright)
  · intro x hx
    cases List.mem_append.1 hx with
    | inl hx =>
      obtain ⟨id, hid, hfound⟩ := h₁.found x hx
      exact ⟨id, hid, hfound.imp_right fun h => h.mono hleft⟩
    | inr hx =>
      obtain ⟨id, hid, hfound | hdefines⟩ := h₂.found x hx
      · exact ⟨id, hid, (hoffers _ _ hfound).imp_right fun h => h.mono hleft⟩
      · exact ⟨id, hid, .inr (hdefines.mono hright)⟩

theorem Records.append {around : Surroundings} {s t u : State} {marks₁ marks₂ : List Mark}
    (h₁ : Records around s t marks₁) (h₂ : Records around t u marks₂) :
    Records around s u (marks₁ ++ marks₂) :=
  h₁.append_of_offers h₂ fun _ _ => h₁.offers

theorem Records.leave {around : Surroundings} {s t : State} {marks : List Mark}
    (h : Records (around.enter s.scope) s.entered t marks) :
    Records around s { t with scope := s.scope } marks := by
  constructor
  · exact h.definitions
  · exact h.references
  · exact h.nextId
  · exact h.ids
  · exact h.rebound
  · intro name id hid
    exact .inl hid
  · intro x hx
    obtain ⟨id, hid, hfound⟩ := h.found x hx
    exact ⟨id, hid, hfound.imp_left Offers.leave⟩

def Unbound (marks : List Mark) : Prop :=
  ∀ m ∈ marks, m.identifier.id = none

theorem unbound_append {marks₁ marks₂ : List Mark} :
    Unbound (marks₁ ++ marks₂) ↔ Unbound marks₁ ∧ Unbound marks₂ :=
  List.forall_mem_append

theorem Unbound.filter_isBound {marks : List Mark} (h : Unbound marks) :
    marks.filter Mark.isBound = [] := by
  rw [List.filter_eq_nil_iff]
  intro m hm
  simp [Mark.isBound, h m hm]

/-- A step of resolution that goes through marks, of which `out` tells what became of them. -/
structure Tracks (around : Surroundings) (marks : List Mark) (f : Step α) (out : α → List Mark) :
    Prop where
  records : ∀ s, Unbound marks → Records around s (f s).2 ((out (f s).1).filter Mark.isBound)
  complete : ∀ s, (f s).2.failure = none → s.failure = none ∧ ∀ m ∈ out (f s).1, m.isBound

theorem Tracks.append {around : Surroundings} {marks₁ marks₂ : List Mark} {f : Step α}
    {g : Step β} {k : Step γ} {out₁ : α → List Mark} {out₂ : β → List Mark} {out : γ → List Mark}
    (hf : Tracks around marks₁ f out₁) (hg : Tracks around marks₂ g out₂)
    (hstate : ∀ s, (k s).2 = (g (f s).2).2)
    (hout : ∀ s, out (k s).1 = out₁ (f s).1 ++ out₂ (g (f s).2).1) :
    Tracks around (marks₁ ++ marks₂) k out := by
  constructor
  · intro s hmarks
    rw [unbound_append] at hmarks
    rw [hstate, hout, List.filter_append]
    exact (hf.records s hmarks.1).append (hg.records _ hmarks.2)
  · intro s hsuccess
    rw [hstate] at hsuccess
    rw [hout, List.forall_mem_append]
    obtain ⟨hfirst, hright⟩ := hg.complete _ hsuccess
    obtain ⟨hs, hleft⟩ := hf.complete s hfirst
    exact ⟨hs, hleft, hright⟩

theorem Tracks.pair {around : Surroundings} {marks₁ marks₂ : List Mark} {f : Step α} {g : Step β}
    {out₁ : α → List Mark} {out₂ : β → List Mark} (hf : Tracks around marks₁ f out₁)
    (hg : Tracks around marks₂ g out₂) :
    Tracks around (marks₁ ++ marks₂)
      (do
        let a ← f
        let b ← g
        return (a, b))
      fun r => out₁ r.1 ++ out₂ r.2 := by
  apply hf.append hg
  · intro s
    rfl
  · intro s
    rfl

theorem Tracks.congr {around : Surroundings} {marks : List Mark} {f : Step α} {k : Step γ}
    {out : α → List Mark} {out' : γ → List Mark} (h : Tracks around marks f out)
    (hstate : ∀ s, (k s).2 = (f s).2) (hout : ∀ s, out' (k s).1 = out (f s).1) :
    Tracks around marks k out' := by
  constructor
  · intro s hmarks
    rw [hstate, hout]
    exact h.records s hmarks
  · intro s hsuccess
    rw [hstate] at hsuccess
    rw [hout]
    exact h.complete s hsuccess

theorem Tracks.inScope {around : Surroundings} {marks : List Mark} {k : Surroundings → Step α}
    {out : α → List Mark} (h : ∀ around, Tracks around marks (k around) out) :
    Tracks around marks (inScope around k) out := by
  constructor
  · intro s hmarks
    rw [inScope_apply]
    exact ((h _).records s.entered hmarks).leave
  · intro s hsuccess
    rw [inScope_apply] at hsuccess
    exact (h _).complete s.entered hsuccess

theorem tracks_pure (around : Surroundings) {a : α} {out : α → List Mark} (hout : out a = []) :
    Tracks around [] (pure a) out := by
  constructor
  · intro s hmarks
    rw [pure_apply, hout]
    exact records_nil rfl rfl rfl rfl fun _ => rfl
  · intro s hsuccess
    rw [pure_apply, hout]
    exact ⟨hsuccess, by simp⟩

theorem tracks_fail (around : Surroundings) (marks : List Mark) {e : ResolveError} {k : Step γ}
    {out : γ → List Mark} (hstate : ∀ s, (k s).2 = (fail e s).2) (hout : ∀ s, out (k s).1 = marks) :
    Tracks around marks k out := by
  have happly : ∀ s, (fail e s).2 = if s.failure.isSome then s else { s with failure := some e } :=
    fun s => rfl
  constructor
  · intro s hmarks
    rw [hout, hmarks.filter_isBound, hstate, happly]
    split
    · exact records_nil rfl rfl rfl rfl fun _ => rfl
    · exact records_nil rfl rfl rfl rfl fun _ => rfl
  · intro s hsuccess
    rw [hstate, happly] at hsuccess
    split at hsuccess
    next h =>
      rw [hsuccess] at h
      cases h
    next => cases hsuccess

theorem tracks_introduce (around : Surroundings) (name : String) (x : Identifier) :
    Tracks around [.definition name x] (introduce name x) fun x => [.definition name x] := by
  constructor
  · intro s hmarks
    have hx : x.id = none := hmarks _ List.mem_cons_self
    unfold introduce
    split
    · rw [hmarks.filter_isBound]
      exact records_nil rfl rfl rfl rfl fun _ => rfl
    · constructor
      · rfl
      · exact (List.append_nil _).symm
      · rfl
      · rfl
      · simp [noteRebound, hx]
      · intro other id hid
        rw [Scope.id?_bind] at hid
        split at hid
        next heq =>
          cases hid
          subst heq
          exact .inr ⟨_, List.mem_cons_self, rfl⟩
        next => exact .inl hid
      · intro y hy
        cases hy with
        | tail _ hy => cases hy
  · intro s hsuccess
    unfold introduce at hsuccess ⊢
    split
    next h =>
      rw [if_pos h] at hsuccess
      rw [hsuccess] at h
      cases h
    next h =>
      refine ⟨Option.not_isSome_iff_eq_none.1 h, ?_⟩
      intro m hm
      rw [List.mem_singleton] at hm
      rw [hm]
      rfl

theorem tracks_define (around : Surroundings) (name : String) (x : Identifier) :
    Tracks around [.definition name x] (define name x) fun x => [.definition name x] := by
  have hfail : Tracks around [.definition name x]
      (do
        fail (.duplicateDefinition name x.span)
        return x)
      fun x => [.definition name x] := tracks_fail around _ (fun _ => rfl) fun _ => rfl
  have hintroduce := tracks_introduce around name x
  constructor
  · intro s
    rw [define_apply]
    split
    · exact hfail.records s
    · exact hintroduce.records s
  · intro s
    rw [define_apply]
    split
    · exact hfail.complete s
    · exact hintroduce.complete s

theorem tracks_refer (around : Surroundings) (x : Identifier) :
    Tracks around [.reference x] (refer around x) fun x => [.reference x] := by
  constructor
  · intro s hmarks
    have hx : x.id = none := hmarks _ List.mem_cons_self
    unfold refer
    split
    · rw [hmarks.filter_isBound]
      exact records_nil rfl rfl rfl rfl fun _ => rfl
    · split
      next id hid =>
        constructor
        · exact (List.append_nil _).symm
        · rfl
        · rfl
        · rfl
        · simp [noteRebound, hx]
        · intro name id' hid'
          exact .inl hid'
        · intro y hy
          cases hy with
          | head => exact ⟨id, rfl, .inl (offers_of_find? hid)⟩
          | tail _ hy => cases hy
      next =>
        rw [hmarks.filter_isBound]
        exact records_nil rfl rfl rfl rfl fun _ => rfl
  · intro s hsuccess
    unfold refer at hsuccess ⊢
    split
    next h =>
      rw [if_pos h] at hsuccess
      rw [hsuccess] at h
      cases h
    next h =>
      rw [if_neg h] at hsuccess
      refine ⟨Option.not_isSome_iff_eq_none.1 h, ?_⟩
      split
      next id hid =>
        intro m hm
        rw [List.mem_singleton] at hm
        rw [hm]
        rfl
      next hnone =>
        rw [hnone] at hsuccess
        cases hsuccess

theorem tracks_reserve (around : Surroundings) (name : String) :
    Tracks around [] (reserve name) fun _ => [] := by
  have happly : ∀ s, (reserve name s).2 =
      if s.failure.isSome then s else { s with scope := s.scope.reserve name } := fun s => rfl
  constructor
  · intro s hmarks
    rw [happly]
    split
    · exact records_nil rfl rfl rfl rfl fun _ => rfl
    · exact records_nil rfl rfl rfl rfl fun other => s.scope.id?_reserve name other
  · intro s hsuccess
    rw [happly] at hsuccess
    split at hsuccess
    · exact ⟨hsuccess, by simp⟩
    · exact ⟨hsuccess, by simp⟩

theorem tracks_reserveNames (around : Surroundings) (e : Expr) :
    Tracks around [] e.reserveNames fun _ => [] := by
  unfold Expr.reserveNames
  induction e.declaredNames with
  | nil => exact tracks_pure around rfl
  | cons name names ih =>
    apply (tracks_reserve around name).append ih
    · intro s
      rfl
    · intro s
      rfl

mutual

theorem tracks_expr (around : Surroundings) (e : Expr) :
    Tracks around (marksOf e.items) (e.resolve around) fun e => marksOf e.items := by
  match e with
  | .string value => exact tracks_pure around rfl
  | .number value => exact tracks_pure around rfl
  | .identifier x =>
    apply (tracks_refer around x).congr
    · intro s
      rfl
    · intro s
      rfl
  | .binary op left right =>
    rw [Expr.items, marksOf_append]
    apply (tracks_expr around left).append (tracks_expr around right)
    · intro s
      rfl
    · intro s
      apply marksOf_append
  | .call callee arguments =>
    rw [Expr.items, marksOf_append]
    apply (tracks_expr around callee).append (tracks_exprs around arguments)
    · intro s
      rfl
    · intro s
      apply marksOf_append
  | .assign (.identifier x) value =>
    rw [Expr.items, marksOf_append]
    apply (tracks_refer around x).append (tracks_expr around value)
    · intro s
      rfl
    · intro s
      rfl
  | .assign (.string _) _ => exact tracks_fail around _ (fun _ => rfl) fun _ => rfl
  | .assign (.number _) _ => exact tracks_fail around _ (fun _ => rfl) fun _ => rfl
  | .assign (.binary ..) _ => exact tracks_fail around _ (fun _ => rfl) fun _ => rfl
  | .assign (.call ..) _ => exact tracks_fail around _ (fun _ => rfl) fun _ => rfl
  | .assign (.assign ..) _ => exact tracks_fail around _ (fun _ => rfl) fun _ => rfl
  | .assign (.declare ..) _ => exact tracks_fail around _ (fun _ => rfl) fun _ => rfl
  | .declare x value =>
    rw [Expr.items, marksOf_append]
    apply (tracks_expr around value).append (tracks_introduce around x.name x)
    · intro s
      rfl
    · intro s
      have hname : ∀ t, (introduce x.name x t).1.name = x.name := by
        intro t
        rw [← Identifier.name_forgetId, forgetId_introduce, Identifier.name_forgetId]
      simp only [Expr.resolve, bind_apply, pure_apply, Expr.items]
      rw [marksOf_append, marksOf_singleton, Item.marks, hname]

theorem tracks_exprs (around : Surroundings) (es : List Expr) :
    Tracks around (marksOf (Expr.itemsList es)) (Expr.resolveList around es)
      fun es => marksOf (Expr.itemsList es) := by
  match es with
  | [] => exact tracks_pure around rfl
  | e :: es =>
    rw [Expr.itemsList, marksOf_append]
    apply (tracks_expr around e).append (tracks_exprs around es)
    · intro s
      rfl
    · intro s
      apply marksOf_append

end

theorem tracks_hoist (around : Surroundings) (b : Block) :
    Tracks around (declaredMarks b.hoisted) b.hoist
      fun names => declaredMarks (hoistedAs b names) := by
  induction b with
  | nil => exact tracks_pure around rfl
  | cons st b ih =>
    match st with
    | .declaration d =>
      apply (tracks_define around d.qualifiedName d.name).append ih
      · intro s
        rfl
      · intro s
        rfl
    | .expression value =>
      apply (tracks_reserveNames around value).append ih
      · intro s
        rfl
      · intro s
        rfl
    | .return value =>
      apply (tracks_reserveNames around value).append ih
      · intro s
        rfl
      · intro s
        rfl
    | .conditional .. => exact ih

theorem tracks_resolveParameters (around : Surroundings) (parameters : List Identifier) :
    Tracks around (declaredMarks (parametersDeclared parameters)) (resolveParameters parameters)
      fun parameters => declaredMarks (parametersDeclared parameters) := by
  induction parameters with
  | nil => exact tracks_pure around rfl
  | cons x xs ih =>
    apply (tracks_define around x.name x).append ih
    · intro s
      rfl
    · intro s
      have hname : (define x.name x s).1.name = x.name := by
        rw [← Identifier.name_forgetId, forgetId_define, Identifier.name_forgetId]
      simp only [resolveParameters, bind_apply, pure_apply, declaredMarks, parametersDeclared,
        List.map_cons, hname, List.singleton_append]

theorem tracks_inBlock {around : Surroundings} {b : Block} {f : Surroundings → Step Block}
    (hf : ∀ around, Tracks around (marksOf (blockItems b)) (f around)
      fun b => marksOf (blockItems b))
    (hsame : ∀ around s, relabelStatements Identifier.forgetId (f around s).1 =
      relabelStatements Identifier.forgetId b) :
    Tracks around b.tree.marks (inBlock around b f) fun b => b.tree.marks := by
  apply Tracks.inScope
  intro around
  apply (tracks_hoist around b).append (hf around)
  · intro s
    rfl
  · intro s
    simp only [bind_apply, pure_apply, Block.tree, Item.marks]
    rw [blockItems_withNames, (withNames_of_same (hsame _ _) (map_forgetId_hoist b s)).2]

theorem tracks_callable {around : Surroundings} {parameters : List Identifier} {b : Block}
    {f : Surroundings → Step Block}
    (hf : ∀ around, Tracks around b.tree.marks (f around) fun b => b.tree.marks)
    (make : List Identifier → Block → Declaration) {out : Declaration → List Mark}
    (hout : ∀ parameters b, out (make parameters b) =
      declaredMarks (parametersDeclared parameters) ++ b.tree.marks) :
    Tracks around (declaredMarks (parametersDeclared parameters) ++ b.tree.marks)
      (inScope around fun around => do
        let parameters ← resolveParameters parameters
        let b ← f around
        return make parameters b) out := by
  apply Tracks.inScope
  intro around
  apply (tracks_resolveParameters around parameters).append (hf around)
  · intro s
    rfl
  · intro s
    simp only [bind_apply, pure_apply, hout]

mutual

theorem tracks_statement (around : Surroundings) (st : Statement) :
    Tracks around (marksOf st.items) (st.resolve around) fun st => marksOf st.items := by
  match st with
  | .expression value =>
    apply (tracks_expr around value).congr
    · intro s
      rfl
    · intro s
      rfl
  | .return value =>
    apply (tracks_expr around value).congr
    · intro s
      rfl
    · intro s
      rfl
  | .declaration d =>
    apply (tracks_declaration around d).congr
    · intro s
      rfl
    · intro s
      rfl
  | .conditional condition consequent none =>
    rw [marksOf_conditional_none, Statement.resolve]
    apply Tracks.inScope
    intro around
    apply (tracks_reserveNames around condition).append
      ((tracks_expr around condition).pair (tracks_block around consequent))
    · intro s
      rfl
    · intro s
      apply marksOf_conditional_none
  | .conditional condition consequent (some alternative) =>
    rw [marksOf_conditional_some, Statement.resolve]
    apply Tracks.inScope
    intro around
    apply (tracks_reserveNames around condition).append
      (((tracks_expr around condition).pair (tracks_block around consequent)).pair
        (tracks_block around alternative))
    · intro s
      rfl
    · intro s
      apply marksOf_conditional_some

theorem tracks_declaration (around : Surroundings) (d : Declaration) :
    Tracks around (marksOf d.items) (d.resolve around) fun d => marksOf d.items := by
  match d with
  | .class name body =>
    rw [Declaration.items, marksOf_singleton]
    apply (tracks_block around body).congr
    · intro s
      rfl
    · intro s
      apply marksOf_singleton
  | .function name parameters body =>
    rw [marksOf_function]
    apply tracks_callable (fun around => tracks_block around body)
    intro parameters b
    apply marksOf_function
  | .method owner name parameters body =>
    have hcallable : Tracks around (marksOf (Declaration.items (.function name parameters body)))
        (Declaration.resolve around (.function name parameters body)) fun d => marksOf d.items := by
      rw [marksOf_function]
      apply tracks_callable (fun around => tracks_block around body)
      intro parameters b
      apply marksOf_function
    apply (tracks_refer around owner).append hcallable
    · intro s
      rfl
    · intro s
      rfl

theorem tracks_statements (around : Surroundings) (b : List Statement) :
    Tracks around (marksOf (blockItems b)) (resolveStatements around b)
      fun b => marksOf (blockItems b) := by
  match b with
  | [] => exact tracks_pure around rfl
  | st :: b =>
    rw [blockItems, marksOf_append]
    apply (tracks_statement around st).append (tracks_statements around b)
    · intro s
      rfl
    · intro s
      apply marksOf_append

theorem tracks_block (around : Surroundings) (b : Block) :
    Tracks around b.tree.marks (inBlock around b (resolveStatements · b)) fun b => b.tree.marks :=
  tracks_inBlock (fun around => tracks_statements around b)
    fun around s => relabelStatements_resolve around b s

end

theorem tracks_declarations (around : Surroundings) (ds : List Declaration) :
    Tracks around (ds.flatMap fun d => marksOf d.items) (Session.resolveDeclarations around ds)
      fun ds => ds.flatMap fun d => marksOf d.items := by
  induction ds with
  | nil => exact tracks_pure around rfl
  | cons d ds ih =>
    apply (tracks_declaration around d).append ih
    · intro s
      rfl
    · intro s
      rfl

end Resolution

end LiterateFun
