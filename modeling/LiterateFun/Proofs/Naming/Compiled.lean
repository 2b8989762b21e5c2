import LiterateFun.Proofs.Emission.Reading
import LiterateFun.Proofs.Naming.Definitions
import LiterateFun.Proofs.Naming.Spelling
import LiterateFun.Proofs.Parsing.Names
import Mathlib

-- The whole library: `cbv` unfolds library functions by the equations that stand in it.

/-!
This module contains the names of compiled programs. If their spellings are apart, the generated
script has the scopes of the program: it declares nothing twice in one scope, and every name in it
finds the declaration of its binding.
-/

namespace LiterateFun

open Resolution Resolution.Session Region

namespace Prelude

def identifiers : List Identifier :=
  (withBuiltins builtins).globals.reverse.map fun p => { name := p.1, id := some p.2 }

def declaredName? (line : String) : Option String :=
  after "const " <|> after "function "
where
  after (keyword : String) : Option String :=
    if keyword.toList <+: line.toList then
      some (String.ofList ((line.toList.drop keyword.length).takeWhile Token.isWordRest))
    else
      none

def declaredNames : List String :=
  lines.filterMap declaredName?

theorem declaredNames_eq : declaredNames = (identifiers.map Identifier.name).map Script.spell := by
  decide +kernel

theorem mem_identifiers {x : Identifier} :
    x ∈ identifiers ↔
      ∃ p ∈ (withBuiltins builtins).globals, { name := p.1, id := some p.2 } = x := by
  simp [identifiers]

end Prelude

/-- The names of a program whose spellings do not get in the way of each other. -/
structure Block.SpelledApart (names : List Identifier) (b : Block) : Prop where
  /-- A method stands in the block of its class. -/
  owners : ∀ p ∈ (names, b) :: blocksIn b,
    p.2.flatMap Statement.owners ⊆ p.2.flatMap Statement.classNames
  /-- A class or function has another name than what is declared in front of its block. -/
  inFront : ∀ p ∈ (names, b) :: blocksIn b, ∀ x ∈ p.2.flatMap Statement.scopeNames, ∀ y ∈ p.1,
    x.name ≠ y.name
  /-- Where a class, function or parameter is in scope with a variable, its name is not the one of
  the variable with its id. -/
  numbered : ∀ p ∈ blockRoles b, p.1 = .declaration ∨ p.1 = .parameter →
    ∀ q ∈ blockRoles b, q.1 = .variable → (b.region names).Together p.2 q.2 →
      ∀ id ∈ q.2.id, p.2.name ≠ q.2.name ++ "_" ++ Text.decimal id

/--
The innermost scope of the script that declares the text of `x` is that of a scope of the program
that declares the binding of `x` with this text.
-/
def FindsDeclaration (ids : List Nat) (way : List (Region Identifier)) (way' : List (Region String))
    (x : Identifier) : Prop :=
  ∃ n r y, way'.findIdx? (fun r' => x.spelling ids ∈ r'.declared) = some n ∧ way[n]? = some r ∧
    y ∈ r.declared ∧ y.spelling ids = x.spelling ids ∧ y.id = x.id

/-- A script has the names of a program, where `ids` are the bindings that a `:=` introduces. -/
structure KeepsNames (ids : List Nat) (program : Region Identifier) (script : Region String) :
    Prop where
  /-- The scopes of the script are those of the program, with every identifier spelled out. -/
  spells : Spells (Identifier.spelling ids) program script
  /-- Different declarations of the program belong to different bindings. -/
  bindings : (program.allDeclared.map Identifier.id).Nodup
  /-- No scope of the script declares a name twice. -/
  distinct : ∀ r' around', script.Nested (r' :: around') → r'.declared.Nodup
  /-- In every scope of the script, what is used finds the declaration of its binding. -/
  finds : ∀ r' around', script.Nested (r' :: around') → ∃ r around, program.Nested (r :: around) ∧
    List.Forall₂ (Spells (Identifier.spelling ids)) (r :: around) (r' :: around') ∧
    ∀ x ∈ r.used, FindsDeclaration ids (r :: around) (r' :: around') x

theorem lowerDeclarations_eq_map (ids : List Nat) (b : Block) :
    lowerDeclarations ids b = (b.filterMap Statement.declaration?).map (Declaration.lower ids) := by
  induction b with
  | nil => rfl
  | cons st b ih =>
    cases st with
    | declaration d => exact congrArg (d.lower ids :: ·) ih
    | _ => exact ih

theorem lowerStatements_filter (ids : List Nat) (b : Block) :
    lowerStatements ids (b.filter fun st => st.declaration?.isNone) = lowerStatements ids b := by
  induction b with
  | nil => rfl
  | cons st b ih =>
    cases st with
    | declaration d => exact ih
    | _ =>
      rw [List.filter_cons_of_pos rfl, lowerStatements, ih]
      rfl

theorem Generator.script_ofBlock {b : Block} (h : (b.hoisted.map Prod.fst).Nodup) :
    (ofBlock b).script.1 = b.lower (ofBlock b).declaredIds := by
  have hids : (ofBlock b).ids = none := by rw [ofBlock_eq h]
  rw [script, hids, Option.getD_none]
  generalize (ofBlock b).declaredIds = ids
  rw [Block.lower, Lowering.assemble, lowerDeclarations_eq_map,
    ← lowerStatements_filter ids b, ofBlock_eq h]
  rfl

theorem compile_eq_ok_iff {source : String} {p : CompiledProgram} :
    compile source = .ok p ↔ ∃ b, Block.ofSource source = .ok b ∧
      ((withBuiltins Prelude.builtins).resolve b).1 = p.program ∧
      ((withBuiltins Prelude.builtins).resolve b).2.2 = none ∧
      ((withBuiltins Prelude.builtins).resolve b).2.1.finish.2 = .ok p.sites ∧
      (Generator.ofBlock p.program).code = p.code := by
  rw [compile]
  constructor
  · intro h
    cases hb : Block.ofSource source with
    | error e =>
      rw [hb] at h
      cases h
    | ok b =>
      rw [hb] at h
      simp only [Except.mapError, bind, Except.bind] at h
      split at h
      next => cases h
      next program session hresolve =>
        cases hfinish : session.finish.2 with
        | error e =>
          rw [hfinish] at h
          cases h
        | ok sites =>
          rw [hfinish] at h
          cases h
          refine ⟨b, rfl, ?_⟩
          rw [hresolve]
          exact ⟨rfl, rfl, hfinish, rfl⟩
  · rintro ⟨b, hb, hprogram, hnone, hsites, hcode⟩
    obtain ⟨program, session, hresolve⟩ :
        ∃ program session, (withBuiltins Prelude.builtins).resolve b = (program, session, none) :=
      ⟨_, _, by rw [← hnone]⟩
    rw [hresolve] at hprogram hsites
    cases p with
    | mk _ sites code =>
      simp only at hprogram hsites hcode
      simp only [hb, Except.mapError, bind, Except.bind, hresolve, hsites]
      rw [← hcode, hprogram]

theorem not_isQualified_of_isWord {name : String} (h : IsWord name) : ¬IsQualified name := by
  intro hqualified
  have hcolon : ':' ∈ name.toList := hqualified.subset (by decide)
  exact absurd (h _ hcolon) (by decide)

section

variable {b : Block} {ids : List Nat}

theorem regular_of_spelledApart {names : List Identifier} (hapart : b.SpelledApart names)
    (hnames : (names.map Identifier.name).Nodup) (hdistinct : Resolution.Distinct [b.tree])
    {p : List Identifier × Block} (hp : p ∈ (names, b) :: blocksIn b) : Block.Regular p.1 p.2 := by
  have hnodup : (p.1.map Identifier.name).Nodup ∧ (p.2.hoisted.map Prod.fst).Nodup := by
    rw [Block.tree, distinct_scope] at hdistinct
    rcases List.mem_cons.1 hp with rfl | hp
    · exact ⟨hnames, hdistinct.1⟩
    · exact nodup_blocksIn b hdistinct.2 hp
  constructor
  · rw [List.map_append, List.nodup_append]
    refine ⟨hnodup.1, hnodup.2.sublist (scopeNames_sublist_hoisted p.2), ?_⟩
    intro name hname name' hname' heq
    obtain ⟨y, hy, rfl⟩ := List.mem_map.1 hname
    obtain ⟨x, hx, rfl⟩ := List.mem_map.1 hname'
    exact hapart.inFront p hp x hx y hy heq.symm
  · exact hapart.owners p hp

theorem Prelude.id_variable_eq_none
    (h : Identified (withBuiltins builtins).globals (blockRoles b))
    (hids : ∀ id ∈ ids, id ∈ variableIds (blockRoles b)) {x : Identifier} (hx : x ∈ identifiers) :
    (x.variable ids).id = none := by
  obtain ⟨p, hp, rfl⟩ := mem_identifiers.1 hx
  rw [Identifier.variable, Option.filter_eq_none_iff]
  rintro id ⟨⟩ hmem
  obtain ⟨y, hy, hyid⟩ := mem_variableIds.1 (hids _ (by simpa using hmem))
  exact h.id_notMem_globals hy (by simp) hp hyid

theorem Prelude.nodup_identifiers : (identifiers.map Identifier.name).Nodup := by
  decide

theorem mem_allDeclared_iff {x : Identifier} :
    x ∈ (b.region Prelude.identifiers).allDeclared ↔
      x ∈ Prelude.identifiers ∨ ∃ role : Role, role.isScoped ∧ (role, x) ∈ blockRoles b := by
  rw [(Block.allDeclared_perm (blockDeclared_perm b) _).mem_iff, List.mem_append, scopedIn,
    List.mem_map]
  simp only [List.mem_filter, Prod.exists, exists_eq_right]
  simp only [and_comm]

theorem apart_of_spelledApart (hapart : b.SpelledApart Prelude.identifiers)
    (h : Identified (withBuiltins Prelude.builtins).globals (blockRoles b))
    (hids : ∀ id, id ∈ ids ↔ id ∈ variableIds (blockRoles b)) {x y : Identifier}
    (hx : x ∈ (b.region Prelude.identifiers).allDeclared)
    (hy : y ∈ (b.region Prelude.identifiers).allDeclared)
    (htogether : (b.region Prelude.identifiers).Together x y) :
    (x.variable ids).Apart (y.variable ids) := by
  intro hxid id hyid
  obtain ⟨hyid, hmem⟩ := Option.filter_eq_some_iff.1 hyid
  have hspellable := h.spellable hids assignable_nil
  -- What has an id that belongs to a variable is the variable.
  have hvariable : (.variable, y) ∈ blockRoles b := by
    obtain ⟨z, hz, hzid⟩ := mem_variableIds.1 ((hids id).1 (by simpa using hmem))
    rcases mem_allDeclared_iff.1 hy with hy | ⟨role, hrole, hy⟩
    · have hnone := Prelude.id_variable_eq_none h (fun id => (hids id).1) hy
      rw [Identifier.variable, hyid, Option.filter_eq_none_iff] at hnone
      exact absurd hmem (hnone id rfl)
    · have heq := h.eq_of_id_eq hy hz (by rintro rfl; cases hrole) (by simp)
        (hyid.trans hzid.symm)
      cases heq
      exact hy
  rcases mem_allDeclared_iff.1 hx with hx | ⟨role, hrole, hx⟩
  · obtain ⟨p, hp, rfl⟩ := Prelude.mem_identifiers.1 hx
    apply Prelude.ne_append_decimal
    have hregistered := registered_withBuiltins Prelude.builtins
    exact (hregistered.mem_iff _).1 (List.mem_map_of_mem hp)
  · have hname : role = .declaration ∨ role = .parameter := by
      cases role with
      | declaration => exact .inl rfl
      | parameter => exact .inr rfl
      | «variable» => exact absurd hxid (hspellable.id_variable_ne_none hx)
      | method owner => cases hrole
      | reference => cases hrole
    exact hapart.numbered _ hx hname _ hvariable rfl htogether id hyid

theorem nodup_id_allDeclared
    (h : Identified (withBuiltins Prelude.builtins).globals (blockRoles b)) :
    ((b.region Prelude.identifiers).allDeclared.map Identifier.id).Nodup := by
  rw [((Block.allDeclared_perm (blockDeclared_perm b) _).map _).nodup_iff, List.map_append]
  have hbuiltins : (Prelude.identifiers.map Identifier.id).Perm
      ((withBuiltins Prelude.builtins).globals.map fun p => some p.2) := by
    rw [Prelude.identifiers, List.map_map]
    exact (List.reverse_perm _).map _
  have hscoped : ((scopedIn (blockRoles b)).map Identifier.id).Sublist
      ((definedIn (blockRoles b)).map fun p => p.2.id) := by
    rw [scopedIn, List.map_map]
    refine List.Sublist.map _ (List.monotone_filter_right _ fun p hp => ?_)
    rw [decide_eq_true_eq]
    intro heq
    rw [heq] at hp
    cases hp
  rw [(hbuiltins.append_right _).nodup_iff]
  exact h.nodup.sublist (hscoped.append_left _)

theorem discernible_of_spelledApart (hapart : b.SpelledApart Prelude.identifiers)
    (h : Identified (withBuiltins Prelude.builtins).globals (blockRoles b))
    (hids : ∀ id, id ∈ ids ↔ id ∈ variableIds (blockRoles b)) {way : List (Region Identifier)}
    (hway : (b.region Prelude.identifiers).Nested way) : InScopeDiscernible ids way := by
  have hsubperm := hway.declared_subperm
  constructor
  · obtain ⟨declared, hperm, hsublist⟩ := hsubperm
    rw [← (hperm.map _).nodup_iff]
    exact (nodup_id_allDeclared h).sublist (hsublist.map _)
  · intro x hx y hy heq
    have hxmem := hsubperm.subset hx
    have hymem := hsubperm.subset hy
    apply Script.Variable.eq_of_text_eq heq
    · exact apart_of_spelledApart hapart h hids hxmem hymem ⟨way, hway, hx, hy⟩
    · exact apart_of_spelledApart hapart h hids hymem hxmem ⟨way, hway, hy, hx⟩

theorem agree_builtins (hplain : ∀ x ∈ Prelude.identifiers, (x.variable ids).id = none) :
    Agree (withBuiltins Prelude.builtins).globals ids [⟨[], []⟩] [Prelude.identifiers] := by
  intro x _ hvisible
  obtain ⟨binding, hbinding, hid⟩ := Option.map_eq_some_iff.1 hvisible
  obtain ⟨id, hlookup, rfl⟩ := Option.map_eq_some_iff.1 hbinding
  have hmem : { name := x.name, id := some id } ∈ Prelude.identifiers :=
    Prelude.mem_identifiers.2 ⟨_, mem_of_lookup_eq_some hlookup, rfl⟩
  have hnodup : (Prelude.identifiers.map (Identifier.spelling ids)).Nodup := by
    rw [map_spelling_of_plain hplain]
    exact Prelude.nodup_identifiers.map fun _ _ => Script.spell_injective
  have hspelling : x.spelling ids = Identifier.spelling ids { name := x.name, id := some id } := by
    rw [Identifier.spelling, Identifier.variable, ← hid]
    rfl
  refine ⟨{ name := x.name, id := some id }, ?_, rfl, hid⟩
  rw [find?, List.findSome?_cons, hspelling, eq_of_find?_spelling hnodup hmem]

end

theorem keepsNames_of_all {ids : List Nat} {program : Region Identifier} {script : Region String}
    (hspells : Spells (Identifier.spelling ids) program script)
    (hbindings : (program.allDeclared.map Identifier.id).Nodup)
    (hall : program.All (FindsBindings ids) []) : KeepsNames ids program script := by
  constructor
  · exact hspells
  · exact hbindings
  · intro r' around' hr'
    obtain ⟨way, hway, hspelled⟩ := hspells.nested hr'
    cases hspelled with
    | cons hr _ => exact hr.declared.nodup_iff.1 (hall.nested hway).1
  · intro r' around' hr'
    obtain ⟨way, hway, hspelled⟩ := hspells.nested hr'
    cases hspelled with
    | @cons r _ around _ hr haround =>
      refine ⟨r, around, hway, .cons hr haround, fun x hx => ?_⟩
      obtain ⟨y, hfind, hid⟩ := (hall.nested hway).2 x hx
      obtain ⟨n, s, hn, hs, hy, htext⟩ := exists_findIdx?_of_find? (.cons hr haround) hfind
      exact ⟨n, s, y, hn, hs, hy, htext, hid⟩

theorem names_resolve {P : String → Prop} {s : Session} {b : Block}
    (h : ∀ x ∈ blockIdentifiers b, P x.name) :
    ∀ x ∈ blockIdentifiers (s.resolve b).1, P x.name := by
  intro x hx
  have htree : .resolve (s.resolve b).1 ∈ (s.performAll [.resolve b]).1 := List.mem_cons_self
  obtain ⟨task, htask, y, hy, hname⟩ := exists_name_eq_of_mem_performAll htree hx
  cases List.mem_singleton.1 htask
  rw [← hname]
  exact h y hy

theorem Generator.mem_declaredIds_iff {b : Block} (h : (b.hoisted.map Prod.fst).Nodup)
    (hassignable : Assignable (blockSubexpressions b)) (id : Nat) :
    id ∈ (ofBlock b).declaredIds ↔ id ∈ variableIds (blockRoles b) := by
  rw [mem_declaredIds_ofBlock h, blockDeclaredIds_eq b hassignable]

theorem Identified.spellable_block {globals : List (String × Nat)} {b : Block} {ids : List Nat}
    (h : Identified globals (blockRoles b))
    (hids : ∀ id, id ∈ ids ↔ id ∈ variableIds (blockRoles b))
    (hassignable : Assignable (blockSubexpressions b)) :
    Spellable ids (blockRoles b) (blockSubexpressions b) (blockDeclaredIds b) := by
  rw [blockDeclaredIds_eq b hassignable]
  exact h.spellable hids hassignable

theorem keepsNames_resolve {b program : Block}
    (h : ((withBuiltins Prelude.builtins).resolve b).2.2 = none)
    (hb : ∀ x ∈ blockIdentifiers b, ¬IsQualified x.name)
    (hprogram : ((withBuiltins Prelude.builtins).resolve b).1 = program)
    (hapart : program.SpelledApart Prelude.identifiers) :
    KeepsNames (Generator.ofBlock program).declaredIds (program.region Prelude.identifiers)
      (Script.region Prelude.declaredNames (Generator.ofBlock program).script.1) := by
  have hs : (withBuiltins Prelude.builtins).Reachable := .withBuiltins _
  have hident := identified_resolve hs h
  have hassignable := assignable_resolve h
  have hhoisted := nodup_hoisted_resolve h
  have hvisible := (wellBound_resolve hs h).inner.visible
  have hdistinct := distinct_resolve h
  have hunqualified : ∀ p ∈ blockRoles program, ¬IsQualified p.2.name := by
    intro p hp
    rw [← hprogram] at hp
    have hx := List.mem_map_of_mem (f := Prod.snd) hp
    rw [map_snd_blockRoles] at hx
    exact names_resolve (P := fun name => ¬IsQualified name) hb p.2 hx
  -- From here on the program is known by what resolution made sure of.
  rw [hprogram] at hident hassignable hhoisted hvisible hdistinct
  rw [Generator.script_ofBlock hhoisted]
  have hids := Generator.mem_declaredIds_iff hhoisted hassignable
  generalize (Generator.ofBlock program).declaredIds = ids at hids ⊢
  have hspellable := hident.spellable_block hids hassignable
  have hplain : ∀ x ∈ Prelude.identifiers, (x.variable ids).id = none := fun x hx =>
    Prelude.id_variable_eq_none hident (fun id => (hids id).1) hx
  have hregular := fun p (hp : p ∈ (Prelude.identifiers, program) :: blocksIn program) =>
    regular_of_spelledApart hapart Prelude.nodup_identifiers hdistinct hp
  have hspells := Block.spells_lower hspellable hregular hplain
  rw [← Prelude.declaredNames_eq] at hspells
  have hall : (program.region Prelude.identifiers).All (FindsBindings ids) [] := by
    rw [List.forall_mem_cons] at hregular
    have hdiscernible := all_of_nested (fun _ => discernible_of_spelledApart hapart hident hids) _
      .root
    have hlocated := located_block (agree_builtins hplain) hvisible hunqualified hdiscernible
      hspellable hregular.1
    obtain ⟨hused, hregions⟩ := finds_statements program hlocated hspellable hregular.2
    exact all_region hlocated hspellable hregular.1 hused hregions
  exact keepsNames_of_all hspells (nodup_id_allDeclared hident) hall

theorem Generator.shows_code_resolve {s : Session} {b program : Block}
    (hnone : (s.resolve b).2.2 = none) (hb : ∀ x ∈ blockIdentifiers b, IsWord x.name)
    (hprogram : (s.resolve b).1 = program) :
    Script.Shows Prelude.lines (ofBlock program).code (ofBlock program).script.1 := by
  apply shows_code
  have hhoisted := nodup_hoisted_resolve hnone
  rw [hprogram] at hhoisted
  rw [script_ofBlock hhoisted, ← hprogram]
  exact Block.namesAll_lower _ (names_resolve fun x hx => Script.isPlain_of_isWordRest (hb x hx))

/--
The script of a compiled program keeps its names, if their spellings are apart: no scope of the
script declares a name twice, and every name in it finds the declaration of its binding.
-/
theorem keepsNames_compile {source : String} {p : CompiledProgram} (h : compile source = .ok p)
    (hapart : p.program.SpelledApart Prelude.identifiers) :
    p.code = Prelude.script ++ Script.text (Generator.ofBlock p.program).script.1 ∧
      Script.Shows Prelude.lines p.code (Generator.ofBlock p.program).script.1 ∧
      KeepsNames (Generator.ofBlock p.program).declaredIds (p.program.region Prelude.identifiers)
        (Script.region Prelude.declaredNames (Generator.ofBlock p.program).script.1) := by
  obtain ⟨b, hb, hprogram, hnone, -, hcode⟩ := compile_eq_ok_iff.1 h
  have hword : ∀ x ∈ blockIdentifiers b, IsWord x.name :=
    fun x hx => (Block.identifiers_of_ofSource hb hx).2
  refine ⟨hcode.symm, ?_, keepsNames_resolve hnone (fun x hx => ?_) hprogram hapart⟩
  · rw [← hcode]
    exact Generator.shows_code_resolve hnone hword hprogram
  · exact not_isQualified_of_isWord (hword x hx)

theorem exists_compile {source : String} {b : Block} (hb : Block.ofSource source = .ok b)
    (hnone : ((withBuiltins Prelude.builtins).resolve b).2.2 = none)
    (hsites : ((withBuiltins Prelude.builtins).resolve b).2.1.finish.2.isOk) :
    ∃ p, compile source = .ok p ∧ p.program = ((withBuiltins Prelude.builtins).resolve b).1 := by
  cases hfinish : ((withBuiltins Prelude.builtins).resolve b).2.1.finish.2 with
  | error e =>
    rw [hfinish] at hsites
    cases hsites
  | ok sites =>
    generalize hprogram : ((withBuiltins Prelude.builtins).resolve b).1 = program
    refine ⟨⟨program, sites, (Generator.ofBlock program).code⟩, ?_, rfl⟩
    exact compile_eq_ok_iff.2 ⟨b, hb, hprogram, hnone, hfinish, rfl⟩

def Identifier.placed (name : String) (start : Nat) : Identifier :=
  { name, span := ⟨start, start + name.length⟩ }

def shadowedNames : String :=
  "\\class\x7bA\x7d\x7b x := \"a\"; \x7d " ++
  "\\fun\x7bA::m\x7d\x7bx\x7d\x7b " ++
  "if x := print(x) \x7b \\class\x7bA\x7d\x7b \x7d return A; \x7d return x; \x7d " ++
  "\\fun\x7bx_5\x7d\x7bx\x7d\x7b x = A; y := x_5; \x7d"

open Identifier in
def shadowedProgram : Block :=
  [.declaration (.class (placed "A" 7) [.expression (.declare (placed "x" 11) (.string "a"))]),
    .declaration (.method (placed "A" 28) (placed "m" 31) [placed "x" 34]
      [.conditional (.declare (placed "x" 41)
          (.call (.identifier (placed "print" 46)) [.identifier (placed "x" 52)]))
        [.declaration (.class (placed "A" 64) []), .return (.identifier (placed "A" 77))] none,
      .return (.identifier (placed "x" 89))]),
    .declaration (.function (placed "x_5" 99) [placed "x" 104]
      [.expression (.assign (.identifier (placed "x" 108)) (.identifier (placed "A" 112))),
      .expression (.declare (placed "y" 115) (.identifier (placed "x_5" 120)))])]

theorem ofSource_shadowedNames : Block.ofSource shadowedNames = .ok shadowedProgram := by
  cbv

theorem spelledApart_shadowedProgram : Block.SpelledApart Prelude.identifiers
    ((withBuiltins Prelude.builtins).resolve shadowedProgram).1 := by
  constructor
  · decide +kernel
  · decide +kernel
  · have hnumbered : ∀ p ∈ blockRoles ((withBuiltins Prelude.builtins).resolve shadowedProgram).1,
        p.1 = .declaration ∨ p.1 = .parameter →
          ∀ q ∈ blockRoles ((withBuiltins Prelude.builtins).resolve shadowedProgram).1,
            q.1 = .variable → ∀ id ∈ q.2.id, p.2.name ≠ q.2.name ++ "_" ++ Text.decimal id := by
      decide +kernel
    exact fun p hp hrole q hq hvariable _ => hnumbered p hp hrole q hq hvariable

theorem keepsNames_compile_shadowedNames :
    ∃ p, compile shadowedNames = .ok p ∧ p.program.SpelledApart Prelude.identifiers ∧
      p.code = Prelude.script ++ Script.text (Generator.ofBlock p.program).script.1 ∧
      Script.Shows Prelude.lines p.code (Generator.ofBlock p.program).script.1 ∧
      KeepsNames (Generator.ofBlock p.program).declaredIds (p.program.region Prelude.identifiers)
        (Script.region Prelude.declaredNames (Generator.ofBlock p.program).script.1) := by
  obtain ⟨p, hp, hprogram⟩ :=
    exists_compile ofSource_shadowedNames (by decide +kernel) (by decide +kernel)
  have hapart : p.program.SpelledApart Prelude.identifiers := by
    rw [hprogram]
    exact spelledApart_shadowedProgram
  exact ⟨p, hp, hapart, keepsNames_compile hp hapart⟩

/--
Programs, with their trees, in which a name is lost: a variable with its id is named like a
function, a class like a builtin or a parameter in front of its block, and a method is not in the
block of its class.
-/
def clashingNames : List (String × Block) :=
  [("\\fun\x7bx_6\x7d\x7b\x7d\x7b \x7d x := \"a\"; x_6();",
      [.declaration (.function (.placed "x_6" 5) [] []),
        .expression (.declare (.placed "x" 15) (.string "a")),
        .expression (.call (.identifier (.placed "x_6" 25)) [])]),
    ("\\class\x7bprint\x7d\x7b \x7d print;",
      [.declaration (.class (.placed "print" 7) []),
        .expression (.identifier (.placed "print" 17))]),
    ("\\fun\x7bf\x7d\x7bx\x7d\x7b \\class\x7bx\x7d\x7b \x7d return x; \x7d",
      [.declaration (.function (.placed "f" 5) [.placed "x" 8]
        [.declaration (.class (.placed "x" 19) []), .return (.identifier (.placed "x" 32))])]),
    ("\\class\x7bA\x7d\x7b \x7d if \"c\" \x7b \\fun\x7bA::m\x7d\x7b\x7d\x7b \x7d A; \x7d",
      [.declaration (.class (.placed "A" 7) []),
        .conditional (.string "c")
          [.declaration (.method (.placed "A" 27) (.placed "m" 30) [] []),
            .expression (.identifier (.placed "A" 38))] none])]

theorem ofSource_clashingNames : ∀ c ∈ clashingNames, Block.ofSource c.1 = .ok c.2 := by
  unfold clashingNames
  simp only [List.forall_mem_cons]
  refine ⟨?_, ?_, ?_, ?_, List.forall_mem_nil _⟩
  all_goals cbv

theorem KeepsNames.outermost {ids : List Nat} {program : Region Identifier} {script : Region String}
    (h : KeepsNames ids program script) :
    script.declared.Nodup ∧ (∀ r ∈ script.inner, r.declared.Nodup) ∧
      program.allDeclared.length = script.allDeclared.length := by
  refine ⟨h.distinct _ _ .root, fun r hr => h.distinct _ _ (.inner .root hr), ?_⟩
  rw [← (Spells.allDeclared_perm _ h.spells).length_eq, List.length_map]

theorem not_keepsNames_clashingNames :
    clashingNames.Forall fun c => ∃ p, compile c.1 = .ok p ∧
      ¬KeepsNames (Generator.ofBlock p.program).declaredIds (p.program.region Prelude.identifiers)
        (Script.region Prelude.declaredNames (Generator.ofBlock p.program).script.1) := by
  have hresolve : ∀ c ∈ clashingNames,
      ((withBuiltins Prelude.builtins).resolve c.2).2.2 = none ∧
      ((withBuiltins Prelude.builtins).resolve c.2).2.1.finish.2.isOk := by
    decide +kernel
  have hscopes : ∀ c ∈ clashingNames,
      let program := ((withBuiltins Prelude.builtins).resolve c.2).1
      let script := Script.region Prelude.declaredNames (Generator.ofBlock program).script.1
      ¬(script.declared.Nodup ∧ (∀ r ∈ script.inner, r.declared.Nodup) ∧
        (program.region Prelude.identifiers).allDeclared.length = script.allDeclared.length) := by
    decide +kernel
  rw [List.forall_iff_forall_mem]
  intro c hc
  obtain ⟨p, hp, hprogram⟩ :=
    exists_compile (ofSource_clashingNames c hc) (hresolve c hc).1 (hresolve c hc).2
  refine ⟨p, hp, fun h => hscopes c hc ?_⟩
  rw [← hprogram]
  exact h.outermost

end LiterateFun
