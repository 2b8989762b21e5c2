import LiterateFun.Proofs.Scoping.Renaming
import LiterateFun.Proofs.Scoping.Tasks

/-!
This module contains the independence of the blocks of a session. Whether a block is resolved or
fails, the stack of scopes and the global names are what they were before. What becomes of a block
therefore depends on the blocks before it only by the number of ids that they took.
-/

namespace LiterateFun

/-- The ids from `first` on become those from `second` on. -/
def Renaming.shift (first second : Nat) : Renaming where
  id id := if id < first then id else id - first + second
  span span := span

namespace Resolution

/-- Nothing has changed but that more ids were given and more sites were recorded. -/
structure Environment.Extends (env env' : Environment) : Prop where
  scope : env'.scope = env.scope
  parents : env'.parents = env.parents
  globals : env'.globals = env.globals
  rebound : env'.rebound = env.rebound
  nextId : env.nextId ≤ env'.nextId
  definitions : env.definitions <+: env'.definitions
  references : env.references <+: env'.references

theorem extends_bindNames (env : Environment) {b : Block}
    (hb : ∀ x ∈ blockIdentifiers b, x.id = none) : env.Extends (b.bindNames env).2 := by
  have hbalanced := b.isBalanced_bindNames
  have hmarks : Unbound (Task.resolve b).marks := Task.unbound_marks hb
  have hrecords := (tracks_block env.surroundings b).records env.toState hmarks
  have hstate : (b.bindNames env).2.toState = (b.resolve env.surroundings env.toState).2 := by
    rw [b.realizes_bindNames env]
    rfl
  constructor
  · exact hbalanced.scope env
  · exact hbalanced.parents env
  · exact hbalanced.globals env
  · rw [hstate]
    exact hrecords.rebound
  · rw [hstate]
    exact Nat.le.intro hrecords.nextId.symm
  · rw [hstate]
    exact ⟨_, hrecords.definitions.symm⟩
  · rw [hstate]
    exact ⟨_, hrecords.references.symm⟩

namespace Session

structure Extends (s t : Session) : Prop where
  environment : s.environment.Extends t.environment
  pending : t.pending = s.pending

theorem Extends.globals {s t : Session} (h : s.Extends t) : t.globals = s.globals :=
  h.environment.globals

theorem extends_resolve (s : Session) {b : Block} (hb : ∀ x ∈ blockIdentifiers b, x.id = none) :
    s.Extends (s.resolve b).2.1 := by
  obtain ⟨hscope, hparents, hglobals, hrebound, hnextId, hdefinitions, hreferences⟩ :=
    extends_bindNames s.environment hb
  exact ⟨⟨hscope, hparents, hglobals, hrebound, hnextId, hdefinitions, hreferences⟩, rfl⟩

theorem sameView_shift {s t : Session} (hs : s.WellNumbered)
    (hglobals : ∀ name, t.globals.lookup name = s.globals.lookup name) :
    (Renaming.shift s.nextId t.nextId).SameView s.surroundings t.surroundings [] [] := by
  apply sameView
  intro name
  rw [hglobals]
  cases hid : s.globals.lookup name with
  | none => rfl
  | some id =>
    have hlt : id < s.nextId := hs.lt _ (mem_of_lookup_eq_some hid)
    simp [Renaming.shift, hlt]

def shiftedTwins (s t : Session) (b : Block) : Twins (Renaming.shift s.nextId t.nextId) where
  first := s.start
  second := t.start
  last := (b.resolve s.surroundings s.start).2.nextId
  carries id hle _ := by
    have hnot : ¬id < s.nextId := Nat.not_lt.2 hle
    simp only [Renaming.shift, if_neg hnot]
    exact Nat.add_comm _ _

theorem resolve_shift {s t : Session} (hs : s.WellNumbered)
    (hglobals : ∀ name, t.globals.lookup name = s.globals.lookup name) {b : Block}
    (hb : ∀ x ∈ blockIdentifiers b, x.id = none) :
    (t.resolve b).2.2 = (s.resolve b).2.2 ∧
      (t.resolve b).1 =
        relabelStatements (Renaming.shift s.nextId t.nextId).identifier (s.resolve b).1 := by
  have hview := sameView_shift hs hglobals
  have hstart : (shiftedTwins s t b).Aligned (Renaming.shift s.nextId t.nextId).SameScope
      s.start t.start := Twins.aligned_start (Renaming.sameScope_nil _) rfl
  obtain ⟨htree, hend⟩ := (Twins.follows_block (fun _ _ => hview.within) b).aligned _ _ hstart
    (Nat.le_refl _)
  -- Nothing is renamed in a block without ids.
  have hsame : relabelStatements (Renaming.shift s.nextId t.nextId).identifier b = b := by
    apply relabelStatements_eq_self
    intro x hx
    apply Renaming.identifier_eq_self fun _ => rfl
    intro id hid
    rw [hb x hx] at hid
    cases hid
  rw [hsame] at htree hend
  rw [resolve_eq, resolve_eq]
  constructor
  · have hfailure := hend.failure
    rw [Option.map_congr fun e _ => Renaming.error_eq_self (fun _ => rfl) e, Option.map_id']
      at hfailure
    exact hfailure
  · exact htree

/--
The blocks of a session are independent of each other. Whatever scopes are open, and whether a block
is resolved or fails at any depth, the stack of scopes and the global names are as before; and from
sessions with the same global names, a block fails or succeeds in the same way and with the same
tree, up to the number of ids that were given before.
-/
theorem resolve_independent {s : Session} (hs : s.Reachable) {b : Block}
    (hb : ∀ x ∈ blockIdentifiers b, x.id = none) :
    (∀ env : Environment, env.Extends (b.bindNames env).2) ∧
    s.Extends (s.resolve b).2.1 ∧
    ∀ t : Session, t.Reachable → (∀ name, t.globals.lookup name = s.globals.lookup name) →
      (t.resolve b).2.2 = (s.resolve b).2.2 ∧
        (t.resolve b).1 =
          relabelStatements (Renaming.shift s.nextId t.nextId).identifier (s.resolve b).1 := by
  refine ⟨?_, s.extends_resolve hb, ?_⟩
  · intro env
    exact extends_bindNames env hb
  · intro t _ hglobals
    exact resolve_shift hs.wellNumbered hglobals hb

/-- The block `\fun{f}{y}{ z := y; if print { w := z; q; } } f;`, in which `q` is not defined. -/
def undefinedInside : Block :=
  [.declaration (.function { name := "f" } [{ name := "y" }]
    [.expression (.declare { name := "z" } (.identifier { name := "y" })),
     .conditional (.identifier { name := "print" })
      [.expression (.declare { name := "w" } (.identifier { name := "z" })),
       .expression (.identifier { name := "q" })]
      none]),
   .expression (.identifier { name := "f" })]

def laterSession : Session :=
  ((withBuiltins ["print"]).resolve undefinedInside).2.1

/-- Two scopes are open, of which the inner one has bound `print`. -/
def openScopes : Environment where
  scope := [("print", .bound 1)]
  nextId := 2
  definitions := []
  references := []
  rebound := []
  failure := none
  parents := [[("q", .reserved)]]
  globals := []

theorem independent_undefinedInside :
    ((∀ x ∈ blockIdentifiers undefinedInside, x.id = none) ∧
      (withBuiltins ["print"]).nextId = 2 ∧ laterSession.nextId = 6) ∧
    ((undefinedInside.bindNames openScopes).2.failure = some (.usedBeforeDeclaration "q" {}) ∧
      (undefinedInside.bindNames openScopes).2.scope = [("print", .bound 1)] ∧
      (undefinedInside.bindNames openScopes).2.parents = [[("q", .reserved)]]) ∧
    (laterSession.resolve undefinedInside).2.2 = some (.undefinedIdentifier "q" {}) ∧
      (laterSession.resolve undefinedInside).1 =
        relabelStatements (Renaming.shift 2 6).identifier
          ((withBuiltins ["print"]).resolve undefinedInside).1 := by
  have hunresolved : ∀ x ∈ blockIdentifiers undefinedInside, x.id = none := by decide
  have hfirst : (withBuiltins ["print"]).nextId = 2 := by decide
  have hlater : laterSession.nextId = 6 := by decide +kernel
  have hfailure : ((withBuiltins ["print"]).resolve undefinedInside).2.2 =
      some (.undefinedIdentifier "q" {}) := by decide +kernel
  have hinside : (undefinedInside.bindNames openScopes).2.failure =
      some (.usedBeforeDeclaration "q" {}) := by decide +kernel
  obtain ⟨hstack, hextends, hshift⟩ :=
    resolve_independent (.withBuiltins ["print"]) hunresolved
  have hreachable : laterSession.Reachable := .resolve (.withBuiltins ["print"]) undefinedInside
  have hlaterExtends : (withBuiltins ["print"]).Extends laterSession := hextends
  have h := hshift laterSession hreachable fun name => by rw [hlaterExtends.globals]
  rw [hfailure, hfirst, hlater] at h
  exact ⟨⟨hunresolved, hfirst, hlater⟩,
    ⟨hinside, (hstack openScopes).scope, (hstack openScopes).parents⟩, h⟩

end Session

end Resolution

end LiterateFun
