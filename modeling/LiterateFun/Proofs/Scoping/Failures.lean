import LiterateFun.Program.Occurrences
import LiterateFun.Proofs.Subexpressions
import LiterateFun.Proofs.Scoping.Surroundings

/-!
This module contains what the failures of name resolution are about. Every failure shows the span
and the name of an identifier of the program.
-/

namespace LiterateFun

/--
The error is about one of the identifiers: it has its span and its name. A name that is already
defined may be that of a method, which has the name of its class in front.
-/
def ResolveError.IsAbout (e : ResolveError) (xs : List Identifier) : Prop :=
  match e with
  | .duplicateDefinition name span =>
    ∃ x ∈ xs, x.span = span ∧ (x.name = name ∨ ∃ owner ∈ xs, owner.name ++ "::" ++ x.name = name)
  | .undefinedIdentifier name span => ∃ x ∈ xs, x.span = span ∧ x.name = name
  | .usedBeforeDeclaration name span => ∃ x ∈ xs, x.span = span ∧ x.name = name
  | .invalidAssignmentTarget => False

theorem ResolveError.IsAbout.mono {e : ResolveError} {xs ys : List Identifier} (h : e.IsAbout xs)
    (hxs : ∀ x ∈ xs, ∃ y ∈ ys, y.span = x.span ∧ y.name = x.name) : e.IsAbout ys := by
  cases e with
  | duplicateDefinition name span =>
    obtain ⟨x, hx, rfl, hname⟩ := h
    obtain ⟨y, hy, hspan, hyname⟩ := hxs x hx
    refine ⟨y, hy, hspan, ?_⟩
    rw [hyname]
    refine hname.imp_right fun ⟨owner, howner, hname⟩ => ?_
    obtain ⟨owner', howner', -, hname'⟩ := hxs owner howner
    exact ⟨owner', howner', by rw [hname', hname]⟩
  | undefinedIdentifier name span =>
    obtain ⟨x, hx, rfl, rfl⟩ := h
    exact hxs x hx
  | usedBeforeDeclaration name span =>
    obtain ⟨x, hx, rfl, rfl⟩ := h
    exact hxs x hx
  | invalidAssignmentTarget => exact h

theorem Declaration.isAbout_duplicate (d : Declaration) :
    (ResolveError.duplicateDefinition d.qualifiedName d.name.span).IsAbout d.identifiers := by
  cases d with
  | «class» name body => exact ⟨name, List.mem_cons_self, rfl, .inl rfl⟩
  | function name parameters body => exact ⟨name, List.mem_cons_self, rfl, .inl rfl⟩
  | method owner name parameters body =>
    exact ⟨name, List.mem_cons_of_mem _ List.mem_cons_self, rfl,
      .inr ⟨owner, List.mem_cons_self, rfl⟩⟩

namespace Resolution

def FailsAbout (xs : List Identifier) (f : Step α) : Prop :=
  ∀ s e, (f s).2.failure = some e → s.failure = some e ∨ e.IsAbout xs

section

variable {xs ys : List Identifier} {around : Surroundings}

theorem FailsAbout.mono {f : Step α} (h : FailsAbout xs f) (hxs : xs ⊆ ys) : FailsAbout ys f := by
  intro s e he
  exact (h s e he).imp_right fun habout =>
    habout.mono fun x hx => ⟨x, hxs hx, rfl, rfl⟩

theorem failsAbout_pure (xs : List Identifier) (a : α) : FailsAbout xs (pure a) :=
  fun _ _ he => .inl he

theorem FailsAbout.bind {f : Step α} {g : α → Step β} (hf : FailsAbout xs f)
    (hg : ∀ a, FailsAbout xs (g a)) : FailsAbout xs (f >>= g) := by
  intro s e he
  rcases hg (f s).1 (f s).2 e he with he | he
  · exact hf s e he
  · exact .inr he

theorem FailsAbout.inScope {f : Surroundings → Step α} (h : ∀ around, FailsAbout xs (f around)) :
    FailsAbout xs (inScope around f) := by
  intro s e he
  rw [inScope_apply] at he
  exact h _ { s with scope := [] } e he

theorem failsAbout_fail {e : ResolveError} (h : e.IsAbout xs) : FailsAbout xs (fail e) := by
  intro s e' he'
  have happly : (fail e s).2 = if s.failure.isSome then s else { s with failure := some e } := rfl
  rw [happly] at he'
  split at he'
  · exact .inl he'
  · cases he'
    exact .inr h

theorem failsAbout_introduce (name : String) (x : Identifier) :
    FailsAbout xs (introduce name x) := by
  intro s e he
  unfold introduce at he
  split at he
  · exact .inl he
  · exact .inl he

theorem failsAbout_define {name : String} {x : Identifier}
    (h : (ResolveError.duplicateDefinition name x.span).IsAbout xs) :
    FailsAbout xs (define name x) := by
  intro s e he
  rw [define_apply] at he
  split at he
  · exact failsAbout_fail h s e he
  · exact failsAbout_introduce name x s e he

theorem failsAbout_refer {x : Identifier} (hx : x ∈ xs) : FailsAbout xs (refer around x) := by
  intro s e he
  unfold refer at he
  split at he
  · exact .inl he
  · split at he
    · exact .inl he
    · cases he
      right
      split
      · exact ⟨x, hx, rfl, rfl⟩
      · exact ⟨x, hx, rfl, rfl⟩

theorem failsAbout_reserveNames (e : Expr) : FailsAbout xs e.reserveNames := by
  unfold Expr.reserveNames
  induction e.declaredNames with
  | nil => exact failsAbout_pure xs ()
  | cons name names ih =>
    refine FailsAbout.bind (fun s e he => ?_) fun _ => ih
    have happly : (reserve name s).2 =
        if s.failure.isSome then s else { s with scope := s.scope.reserve name } := rfl
    rw [happly] at he
    split at he
    · exact .inl he
    · exact .inl he

end

mutual

theorem failsAbout_expr (around : Surroundings) (e : Expr) (h : Assignable e.subexpressions) :
    FailsAbout e.identifiers (e.resolve around) := by
  match e with
  | .string value => exact failsAbout_pure _ _
  | .number value => exact failsAbout_pure _ _
  | .identifier x =>
    exact (failsAbout_refer List.mem_cons_self).bind fun _ => failsAbout_pure _ _
  | .binary op left right =>
    obtain ⟨hleft, hright⟩ := assignable_append.1 h.of_cons
    refine ((failsAbout_expr around left hleft).mono (List.subset_append_left ..)).bind fun _ => ?_
    refine ((failsAbout_expr around right hright).mono (List.subset_append_right ..)).bind
      fun _ => ?_
    exact failsAbout_pure _ _
  | .call callee arguments =>
    obtain ⟨hcallee, harguments⟩ := assignable_append.1 h.of_cons
    refine ((failsAbout_expr around callee hcallee).mono (List.subset_append_left ..)).bind
      fun _ => ?_
    refine ((failsAbout_exprs around arguments harguments).mono
      (List.subset_append_right ..)).bind fun _ => ?_
    exact failsAbout_pure _ _
  | .assign target value =>
    obtain ⟨x, rfl⟩ := h target value List.mem_cons_self
    have hvalue := (assignable_append.1 h.of_cons).2
    refine (failsAbout_refer List.mem_cons_self).bind fun _ => ?_
    refine ((failsAbout_expr around value hvalue).mono (List.subset_cons_self ..)).bind
      fun _ => ?_
    exact failsAbout_pure _ _
  | .declare x value =>
    refine ((failsAbout_expr around value h.of_cons).mono (List.subset_cons_self ..)).bind
      fun _ => ?_
    exact (failsAbout_introduce x.name x).bind fun _ => failsAbout_pure _ _

theorem failsAbout_exprs (around : Surroundings) (es : List Expr)
    (h : Assignable (Expr.subexpressionsList es)) :
    FailsAbout (Expr.identifiersList es) (Expr.resolveList around es) := by
  match es with
  | [] => exact failsAbout_pure _ _
  | e :: es =>
    obtain ⟨he, hes⟩ := assignable_append.1 h
    refine ((failsAbout_expr around e he).mono (List.subset_append_left ..)).bind fun _ => ?_
    refine ((failsAbout_exprs around es hes).mono (List.subset_append_right ..)).bind fun _ => ?_
    exact failsAbout_pure _ _

end

theorem failsAbout_hoist (b : Block) : FailsAbout (blockIdentifiers b) b.hoist := by
  induction b with
  | nil => exact failsAbout_pure _ _
  | cons s b ih =>
    have hrest := ih.mono (List.subset_append_right s.identifiers (blockIdentifiers b))
    cases s with
    | declaration d =>
      have hname := failsAbout_define d.isAbout_duplicate
      refine (hname.mono (List.subset_append_left ..)).bind fun _ => ?_
      exact hrest.bind fun _ => failsAbout_pure _ _
    | expression value => exact (failsAbout_reserveNames value).bind fun _ => hrest
    | «return» value => exact (failsAbout_reserveNames value).bind fun _ => hrest
    | conditional condition consequent alternative => exact hrest

theorem failsAbout_parameters (parameters : List Identifier) :
    FailsAbout parameters (resolveParameters parameters) := by
  induction parameters with
  | nil => exact failsAbout_pure _ _
  | cons x parameters ih =>
    refine (failsAbout_define ⟨x, List.mem_cons_self, rfl, .inl rfl⟩).bind fun _ => ?_
    exact (ih.mono (List.subset_cons_self ..)).bind fun _ => failsAbout_pure _ _

theorem failsAbout_inBlock (around : Surroundings) {b : Block}
    {statements : Surroundings → Step Block}
    (h : ∀ around, FailsAbout (blockIdentifiers b) (statements around)) :
    FailsAbout (blockIdentifiers b) (inBlock around b statements) := by
  refine FailsAbout.inScope fun around => ?_
  refine (failsAbout_hoist b).bind fun _ => ?_
  exact (h around).bind fun _ => failsAbout_pure _ _

theorem failsAbout_callable (around : Surroundings) {parameters xs : List Identifier}
    {body : Surroundings → Step Block} {build : List Identifier → Block → Declaration}
    (h : ∀ around, FailsAbout xs (body around)) :
    FailsAbout (parameters ++ xs)
      (inScope around fun around => do
        let parameters ← resolveParameters parameters
        let body ← body around
        return build parameters body) := by
  refine FailsAbout.inScope fun around => ?_
  refine ((failsAbout_parameters parameters).mono (List.subset_append_left ..)).bind fun _ => ?_
  refine ((h around).mono (List.subset_append_right ..)).bind fun _ => ?_
  exact failsAbout_pure _ _

mutual

theorem failsAbout_statement (around : Surroundings) (s : Statement)
    (h : Assignable s.subexpressions) : FailsAbout s.identifiers (s.resolve around) := by
  match s with
  | .expression value =>
    exact (failsAbout_expr around value h).bind fun _ => failsAbout_pure _ _
  | .return value =>
    exact (failsAbout_expr around value h).bind fun _ => failsAbout_pure _ _
  | .declaration d =>
    exact (failsAbout_declaration around d h).bind fun _ => failsAbout_pure _ _
  | .conditional condition consequent none =>
    obtain ⟨hcondition, hconsequent⟩ := assignable_append.1 h
    refine FailsAbout.inScope fun around => ?_
    refine (failsAbout_reserveNames condition).bind fun _ => ?_
    refine ((failsAbout_expr around condition hcondition).mono
      (List.subset_append_left ..)).bind fun _ => ?_
    refine ((failsAbout_inBlock around fun around =>
      failsAbout_statements around consequent hconsequent).mono
        (List.subset_append_right ..)).bind fun _ => ?_
    exact failsAbout_pure _ _
  | .conditional condition consequent (some alternative) =>
    obtain ⟨h, halternative⟩ := assignable_append.1 h
    obtain ⟨hcondition, hconsequent⟩ := assignable_append.1 h
    have hleft : condition.identifiers ++ blockIdentifiers consequent ⊆
        condition.identifiers ++ blockIdentifiers consequent ++ blockIdentifiers alternative :=
      List.subset_append_left ..
    refine FailsAbout.inScope fun around => ?_
    refine (failsAbout_reserveNames condition).bind fun _ => ?_
    refine ((failsAbout_expr around condition hcondition).mono
      (List.Subset.trans (List.subset_append_left ..) hleft)).bind fun _ => ?_
    refine ((failsAbout_inBlock around fun around =>
      failsAbout_statements around consequent hconsequent).mono
        (List.Subset.trans (List.subset_append_right ..) hleft)).bind fun _ => ?_
    refine ((failsAbout_inBlock around fun around =>
      failsAbout_statements around alternative halternative).mono
        (List.subset_append_right ..)).bind fun _ => ?_
    exact failsAbout_pure _ _

theorem failsAbout_declaration (around : Surroundings) (d : Declaration)
    (h : Assignable d.subexpressions) : FailsAbout d.identifiers (d.resolve around) := by
  match d with
  | .class name body =>
    refine ((failsAbout_inBlock around fun around =>
      failsAbout_statements around body h).mono (List.subset_cons_self ..)).bind fun _ => ?_
    exact failsAbout_pure _ _
  | .function name parameters body =>
    refine (failsAbout_callable around fun around =>
      failsAbout_inBlock around fun around => failsAbout_statements around body h).mono ?_
    exact List.subset_cons_self ..
  | .method owner name parameters body =>
    refine (failsAbout_refer List.mem_cons_self).bind fun _ => ?_
    refine (failsAbout_callable around fun around =>
      failsAbout_inBlock around fun around => failsAbout_statements around body h).mono ?_
    exact List.Subset.trans (List.subset_cons_self ..) (List.subset_cons_self ..)

theorem failsAbout_statements (around : Surroundings) (b : List Statement)
    (h : Assignable (blockSubexpressions b)) :
    FailsAbout (blockIdentifiers b) (resolveStatements around b) := by
  match b with
  | [] => exact failsAbout_pure _ _
  | s :: b =>
    obtain ⟨hs, hb⟩ := assignable_append.1 h
    refine ((failsAbout_statement around s hs).mono (List.subset_append_left ..)).bind fun _ => ?_
    refine ((failsAbout_statements around b hb).mono (List.subset_append_right ..)).bind
      fun _ => ?_
    exact failsAbout_pure _ _

end

namespace Session

theorem isAbout_of_failsAbout {s : Session} {f : Step α} {e : ResolveError} {xs : List Identifier}
    (hf : FailsAbout xs f) (he : (f s.start).2.failure = some e) : e.IsAbout xs :=
  (hf s.start e he).resolve_left nofun

theorem isAbout_of_resolve {s : Session} {b : Block} {e : ResolveError}
    (hb : Assignable (blockSubexpressions b)) (he : (s.resolve b).2.2 = some e) :
    e.IsAbout (blockIdentifiers b) := by
  rw [resolve_eq] at he
  refine isAbout_of_failsAbout ?_ he
  exact failsAbout_inBlock s.surroundings fun around => failsAbout_statements around b hb

theorem failsAbout_resolveDeclarations (around : Surroundings) {ds : List Declaration}
    (h : ∀ d ∈ ds, Assignable d.subexpressions) :
    FailsAbout (ds.flatMap Declaration.identifiers) (resolveDeclarations around ds) := by
  induction ds with
  | nil => exact failsAbout_pure _ _
  | cons d ds ih =>
    obtain ⟨hd, hds⟩ := List.forall_mem_cons.1 h
    refine ((failsAbout_declaration around d hd).mono (List.subset_append_left ..)).bind
      fun _ => ?_
    refine ((ih hds).mono (List.subset_append_right ..)).bind fun _ => ?_
    exact failsAbout_pure _ _

theorem isAbout_of_finish {s : Session} {e : ResolveError}
    (h : ∀ d ∈ s.pending, Assignable d.subexpressions) (he : s.finish.2 = .error e) :
    e.IsAbout (s.pending.flatMap Declaration.identifiers) := by
  rw [finish_eq, outcome_eq_error_iff] at he
  exact isAbout_of_failsAbout (failsAbout_resolveDeclarations s.surroundings h) he

theorem isAbout_of_addAll {s : Session} {ds : List Declaration} {e : ResolveError}
    (he : (s.addAll ds).2 = some e) : e.IsAbout (ds.flatMap Declaration.identifiers) := by
  induction ds generalizing s with
  | nil => cases he
  | cons d ds ih =>
    rw [addAll, add] at he
    split at he
    next =>
      exact (ih he).mono fun x hx => ⟨x, List.mem_append_right _ hx, rfl, rfl⟩
    next hadd =>
      split at hadd
      · cases hadd
        cases he
        exact d.isAbout_duplicate.mono fun x hx => ⟨x, List.mem_append_left _ hx, rfl, rfl⟩
      · cases hadd

theorem exists_of_mem_pending {s : Session} {ds : List Declaration} {d : Declaration}
    (hd : d ∈ (s.addAll ds).1.pending) :
    d ∈ s.pending ∨ ∃ d' ∈ ds, ∃ id, d = d'.withName { d'.name with id } := by
  induction ds generalizing s with
  | nil => exact .inl hd
  | cons d₁ ds ih =>
    rw [addAll, add] at hd
    split at hd
    next hadd =>
      split at hadd
      · cases hadd
      · cases hadd
        rcases ih hd with hd | ⟨d', hd', hid⟩
        · rcases List.mem_append.1 hd with hd | hd
          · exact .inl hd
          · exact .inr ⟨d₁, List.mem_cons_self, _, List.mem_singleton.1 hd⟩
        · exact .inr ⟨d', List.mem_cons_of_mem _ hd', hid⟩
    next => exact .inl hd

end Session

end Resolution

end LiterateFun
