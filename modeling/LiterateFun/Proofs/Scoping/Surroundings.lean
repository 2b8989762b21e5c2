import LiterateFun.Proofs.Basics
import LiterateFun.Resolution.Session

/-!
This module contains resolution in given surroundings. The scopes around a step are an argument
here, which no step can change, and every step in a scope of its own returns to the scope that it
came from. Resolution with a stack of scopes gives the same.
-/

namespace LiterateFun

def Surroundings.enter (s : Surroundings) (scope : Scope) : Surroundings :=
  { s with scopes := scope :: s.scopes }

namespace Resolution

def inScope (around : Surroundings) (f : Surroundings → Step α) : Step α := fun s =>
  let (a, t) := f (around.enter s.scope) { s with scope := [] }
  (a, { t with scope := s.scope })

end Resolution

open Resolution

mutual

def Expr.resolve (around : Surroundings) : Expr → Step Expr
  | .string value => return .string value
  | .number value => return .number value
  | .identifier x => return .identifier (← refer around x)
  | .binary op left right => do
    let left ← left.resolve around
    let right ← right.resolve around
    return .binary op left right
  | .call callee arguments => do
    let callee ← callee.resolve around
    let arguments ← Expr.resolveList around arguments
    return .call callee arguments
  | .assign (.identifier x) value => do
    let x ← refer around x
    let value ← value.resolve around
    return .assign (.identifier x) value
  | .assign target value => do
    fail .invalidAssignmentTarget
    return .assign target value
  | .declare x value => do
    let value ← value.resolve around
    let x ← introduce x.name x
    return .declare x value

def Expr.resolveList (around : Surroundings) : List Expr → Step (List Expr)
  | [] => return []
  | e :: es => do
    let e ← e.resolve around
    let es ← Expr.resolveList around es
    return e :: es

end

def inBlock (around : Surroundings) (b : Block) (statements : Surroundings → Step Block) :
    Step Block :=
  inScope around fun around => do
    let names ← b.hoist
    let b ← statements around
    return b.withNames names

mutual

def Statement.resolve (around : Surroundings) : Statement → Step Statement
  | .expression value => return .expression (← value.resolve around)
  | .return value => return .return (← value.resolve around)
  | .declaration d => return .declaration (← d.resolve around)
  | .conditional condition consequent none =>
    inScope around fun around => do
      condition.reserveNames
      let condition ← condition.resolve around
      let consequent ← inBlock around consequent (resolveStatements · consequent)
      return .conditional condition consequent none
  | .conditional condition consequent (some alternative) =>
    inScope around fun around => do
      condition.reserveNames
      let condition ← condition.resolve around
      let consequent ← inBlock around consequent (resolveStatements · consequent)
      let alternative ← inBlock around alternative (resolveStatements · alternative)
      return .conditional condition consequent (some alternative)

def Declaration.resolve (around : Surroundings) : Declaration → Step Declaration
  | .class name body => return .class name (← inBlock around body (resolveStatements · body))
  | .function name parameters body =>
    inScope around fun around => do
      let parameters ← resolveParameters parameters
      let body ← inBlock around body (resolveStatements · body)
      return .function name parameters body
  | .method owner name parameters body => do
    let owner ← refer around owner
    inScope around fun around => do
      let parameters ← resolveParameters parameters
      let body ← inBlock around body (resolveStatements · body)
      return .method owner name parameters body

def resolveStatements (around : Surroundings) : List Statement → Step (List Statement)
  | [] => return []
  | s :: b => do
    let s ← s.resolve around
    let b ← resolveStatements around b
    return s :: b

end

def Block.resolve (around : Surroundings) (b : Block) : Step Block :=
  inBlock around b fun around => resolveStatements around b

def Resolution.Session.resolveDeclarations (around : Surroundings) :
    List Declaration → Step (List Declaration)
  | [] => return []
  | d :: ds => do
    let d ← d.resolve around
    let ds ← Session.resolveDeclarations around ds
    return d :: ds

namespace Resolution

def Realizes (f : Resolver α) (g : Surroundings → Step α) : Prop :=
  ∀ env : Environment, f env = Resolver.here (g env.surroundings) env

theorem realizes_pure (a : α) : Realizes (pure a) fun _ => pure a :=
  fun _ => rfl

theorem realizes_here (f : Step α) : Realizes (Resolver.here f) fun _ => f :=
  fun _ => rfl

theorem realizes_reference (x : Identifier) : Realizes (Resolver.reference x) (refer · x) :=
  fun _ => rfl

theorem Realizes.bind {f : Resolver α} {g : Surroundings → Step α} {f' : α → Resolver β}
    {g' : α → Surroundings → Step β} (h : Realizes f g) (h' : ∀ a, Realizes (f' a) (g' a)) :
    Realizes (f >>= f') fun around => g around >>= fun a => g' a around := by
  intro env
  calc
    f' (f env).1 (f env).2 = Resolver.here (g' (f env).1 (f env).2.surroundings) (f env).2 :=
      h' _ _
    _ = _ := by
      rw [h env]
      rfl

theorem Realizes.bind_pure {f : Resolver α} {g : Surroundings → Step α} (h : Realizes f g)
    (k : α → β) :
    Realizes (f >>= fun a => pure (k a)) fun around => g around >>= fun a => pure (k a) :=
  h.bind fun a => realizes_pure (k a)

theorem Realizes.inScope {f : Resolver α} {g : Surroundings → Step α} (h : Realizes f g) :
    Realizes (Resolver.inScope f) fun around => inScope around g := by
  intro env
  have hinside := h (Resolver.enterScope env).2
  calc
    Resolver.inScope f env =
        ((f (Resolver.enterScope env).2).1,
          (Resolver.exitScope (f (Resolver.enterScope env).2).2).2) := rfl
    _ = _ := by
      rw [hinside]
      rfl

theorem Realizes.inBlock {f : Resolver Block} {g : Surroundings → Step Block} (h : Realizes f g)
    (b : Block) : Realizes (Resolver.inBlock b f) fun around => LiterateFun.inBlock around b g := by
  apply Realizes.inScope
  apply (realizes_here b.hoist).bind
  intro names
  apply h.bind_pure

end Resolution

mutual

theorem Expr.realizes_bindNames (e : Expr) :
    Realizes e.bindNames fun around => e.resolve around := by
  cases e with
  | string => exact realizes_pure _
  | number => exact realizes_pure _
  | identifier x =>
    simp only [bindNames, Expr.resolve]
    apply (realizes_reference x).bind_pure
  | binary op left right =>
    simp only [bindNames, Expr.resolve]
    apply left.realizes_bindNames.bind
    intro left
    apply right.realizes_bindNames.bind_pure
  | call callee arguments =>
    simp only [bindNames, Expr.resolve]
    apply callee.realizes_bindNames.bind
    intro callee
    apply (Expr.realizes_bindNamesList arguments).bind_pure
  | assign target value =>
    cases target with
    | identifier x =>
      simp only [bindNames, Expr.resolve]
      apply (realizes_reference x).bind
      intro x
      apply value.realizes_bindNames.bind_pure
    | _ => exact (realizes_here (fail .invalidAssignmentTarget)).bind_pure _
  | declare x value =>
    simp only [bindNames, Expr.resolve]
    apply value.realizes_bindNames.bind
    intro value
    apply (realizes_here (introduce x.name x)).bind_pure

theorem Expr.realizes_bindNamesList (es : List Expr) :
    Realizes (Expr.bindNamesList es) fun around => Expr.resolveList around es := by
  cases es with
  | nil => exact realizes_pure _
  | cons e es =>
    simp only [bindNamesList, Expr.resolveList]
    apply e.realizes_bindNames.bind
    intro e
    apply (Expr.realizes_bindNamesList es).bind_pure

end

mutual

theorem Statement.realizes_bindNames (s : Statement) :
    Realizes s.bindNames fun around => s.resolve around := by
  cases s with
  | expression value =>
    simp only [Statement.bindNames, Statement.resolve]
    apply value.realizes_bindNames.bind_pure
  | «return» value =>
    simp only [Statement.bindNames, Statement.resolve]
    apply value.realizes_bindNames.bind_pure
  | declaration d =>
    simp only [Statement.bindNames, Statement.resolve]
    apply d.realizes_bindNames.bind_pure
  | conditional condition consequent alternative =>
    have hconsequent := (realizes_bindStatements consequent).inBlock consequent
    cases alternative with
    | none =>
      simp only [Statement.bindNames, Statement.resolve]
      apply Realizes.inScope
      apply (realizes_here condition.reserveNames).bind
      intro _
      apply condition.realizes_bindNames.bind
      intro condition
      apply hconsequent.bind_pure
    | some alternative =>
      have halternative := (realizes_bindStatements alternative).inBlock alternative
      simp only [Statement.bindNames, Statement.resolve]
      apply Realizes.inScope
      apply (realizes_here condition.reserveNames).bind
      intro _
      apply condition.realizes_bindNames.bind
      intro condition
      apply hconsequent.bind
      intro consequent
      apply halternative.bind_pure

theorem Declaration.realizes_bindNames (d : Declaration) :
    Realizes d.bindNames fun around => d.resolve around := by
  cases d with
  | «class» name body =>
    simp only [Declaration.bindNames, Declaration.resolve]
    apply ((realizes_bindStatements body).inBlock body).bind_pure
  | function name parameters body =>
    simp only [Declaration.bindNames, Declaration.resolve]
    apply Realizes.inScope
    apply (realizes_here (resolveParameters parameters)).bind
    intro parameters
    apply ((realizes_bindStatements body).inBlock body).bind_pure
  | method owner name parameters body =>
    simp only [Declaration.bindNames, Declaration.resolve]
    apply (realizes_reference owner).bind
    intro owner
    apply Realizes.inScope
    apply (realizes_here (resolveParameters parameters)).bind
    intro parameters
    apply ((realizes_bindStatements body).inBlock body).bind_pure

theorem realizes_bindStatements (b : List Statement) :
    Realizes (bindStatements b) fun around => resolveStatements around b := by
  cases b with
  | nil => exact realizes_pure _
  | cons s b =>
    simp only [bindStatements, resolveStatements]
    apply s.realizes_bindNames.bind
    intro s
    apply (realizes_bindStatements b).bind_pure

end

theorem Block.realizes_bindNames (b : Block) :
    Realizes b.bindNames fun around => b.resolve around :=
  (realizes_bindStatements b).inBlock b

namespace Resolution

namespace Session

theorem realizes_bindDeclarations (ds : List Declaration) :
    Realizes (bindDeclarations ds) fun around => resolveDeclarations around ds := by
  induction ds with
  | nil => exact realizes_pure _
  | cons d ds ih =>
    simp only [bindDeclarations, resolveDeclarations]
    apply d.realizes_bindNames.bind
    intro d
    apply ih.bind_pure

def start (s : Session) : State where
  scope := []
  nextId := s.nextId
  definitions := s.sites.definitions
  references := s.sites.references
  rebound := s.sites.rebound
  failure := none

def surroundings (s : Session) : Surroundings where
  scopes := []
  globals := s.globals

theorem toState_environment (s : Session) : s.environment.toState = s.start := by
  rw [environment, start, s.idle.1]

theorem surroundings_environment (s : Session) : s.environment.surroundings = s.surroundings := by
  rw [environment, Environment.surroundings, surroundings, s.idle.2]

def resume (s : Session) (t : State) : Session :=
  { s with
    nextId := t.nextId
    sites := { definitions := t.definitions, references := t.references, rebound := t.rebound } }

theorem run_eq (s : Session) {f : Resolver α} (hf : f.IsBalanced) {g : Surroundings → Step α}
    (h : Realizes f g) :
    s.run f hf = ((g s.surroundings s.start).1, s.resume (g s.surroundings s.start).2,
      (g s.surroundings s.start).2.failure) := by
  have hresult : f s.environment = Resolver.here (g s.surroundings) s.environment := by
    rw [h s.environment, surroundings_environment]
  have hstate : (f s.environment).2.toState = (g s.surroundings s.start).2 := by
    rw [hresult, ← toState_environment]
    rfl
  have hsession : (s.run f hf).2.1 = s.resume (g s.surroundings s.start).2 := by
    apply Session.ext
    · exact hf.globals s.environment
    · exact congrArg State.nextId hstate
    · rw [resume, ← hstate]
      rfl
    · rfl
    · exact hf.scope s.environment
    · exact hf.parents s.environment
  have htree : (s.run f hf).1 = (g s.surroundings s.start).1 := by
    rw [← toState_environment]
    exact congrArg Prod.fst hresult
  exact Prod.ext htree (Prod.ext hsession (congrArg State.failure hstate))

theorem resolve_eq (s : Session) (b : Block) :
    s.resolve b = ((b.resolve s.surroundings s.start).1,
      s.resume (b.resolve s.surroundings s.start).2,
      (b.resolve s.surroundings s.start).2.failure) :=
  s.run_eq b.isBalanced_bindNames b.realizes_bindNames

theorem globals_resolve (s : Session) (b : Block) : (s.resolve b).2.1.globals = s.globals :=
  b.isBalanced_bindNames.globals s.environment

end Session

def outcome (s : State) : Except ResolveError Sites :=
  match s.failure with
  | none =>
    .ok { definitions := s.definitions, references := s.references, rebound := s.rebound }
  | some e => .error e

theorem outcome_eq_ok_iff {s : State} {sites : Sites} :
    outcome s = .ok sites ↔ s.failure = none ∧
      sites =
        { definitions := s.definitions, references := s.references, rebound := s.rebound } := by
  unfold outcome
  cases s.failure <;> simp [eq_comm]

theorem outcome_eq_error_iff {s : State} {e : ResolveError} :
    outcome s = .error e ↔ s.failure = some e := by
  unfold outcome
  cases s.failure <;> simp

theorem Session.finish_eq (s : Session) :
    s.finish = ((Session.resolveDeclarations s.surroundings s.pending s.start).1,
      outcome (Session.resolveDeclarations s.surroundings s.pending s.start).2) := by
  rw [Session.finish, s.run_eq _ (realizes_bindDeclarations s.pending), outcome]
  cases (Session.resolveDeclarations s.surroundings s.pending s.start).2.failure <;> rfl

end Resolution

end LiterateFun
